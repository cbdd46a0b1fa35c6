import RdmaBook.OneSided.Lifetime

/-!
# What rdma_write delivers

The client of rdma_write posts two requests one after the other, and the connection
executes them in that order: where the Send has been executed, the Write has. So it is
enough to follow the two processes by the number of calls they have made, and the
connection by the number of requests executed (`RdmaBook.WriteInv`). The Send may come
before the server has posted its receive; it waits then, behind a Write that does not.
-/

namespace RdmaBook

open CString

/-! ### What is sent -/

section Contents

variable (cfg : OsCfg)

/-- What `snprintf` leaves in the buffer of the client. -/
def OsCfg.stored : List UInt8 := snprintf (cfg.mem .client .dataBuf) (cfg.size .client) writeText

/-- `strlen(data_buf) + 1`. -/
def OsCfg.writeLen : ℕ := strlen cfg.stored 0 + 1

/-- What the Write carries. -/
def OsCfg.written : List UInt8 := Stream.window cfg.stored 0 cfg.writeLen

/-- What the Send carries. -/
def notification : List UInt8 := strncpy notifyMsg notifySize

/-- The two requests of the client. -/
def OsCfg.requests : List (MsgWr OsBuf) :=
  [⟨⟨0, .dataBuf, cfg.writeLen⟩, .rdmaWrite .dataBuf 0⟩, ⟨⟨1, .notifyBuf, notifySize⟩, .send⟩]

/-- The two requests on their way. -/
def OsCfg.messages : List (Msg OsBuf) := [.write .dataBuf 0 cfg.written, .send notification]

/-- The number of requests the client has posted after `k` calls. -/
def postedAfter (k : ℕ) : ℕ := if k ≤ 1 then 0 else if k ≤ 4 then 1 else 2

/-- The region of the server. -/
def OsCfg.region (executed : ℕ) : List UInt8 :=
  if executed = 0 then cfg.mem .server .dataBuf
  else Stream.overlay (cfg.mem .server .dataBuf) 0 cfg.written

/-- **The invariant of rdma_write**, where the client has made `k` calls and the server
`j`. -/
structure WriteInv (k j : ℕ) (st : OsState OsBuf) : Prop where
  client : (st.procs .client).todo = (writeScript cfg .client).drop k
  server : (st.procs .server).todo = (writeScript cfg .server).drop j
  posted : (st.conn.ends .client).posted = cfg.requests.take (postedAfter k)
  dataBuf : (st.conn.ends .client).mem .dataBuf = if k = 0 then cfg.mem .client .dataBuf
    else cfg.stored
  notifyBuf : 4 ≤ k → Stream.window ((st.conn.ends .client).mem .notifyBuf) 0 notifySize =
    notification
  wire : ∀ i m, (st.conn.wire .client)[i]? = some m →
    cfg.messages[(st.conn.ends .server).executed + i]? = some m
  region : (st.conn.ends .server).mem .dataBuf = cfg.region (st.conn.ends .server).executed
  size : ((st.conn.ends .server).mem .notifyBuf).length = notifySize
  notified : (st.conn.ends .server).executed = 2 →
    (st.conn.ends .server).mem .notifyBuf = notification
  rq : ∀ wr ∈ (st.conn.ends .server).rq, wr = ⟨2, .notifyBuf, notifySize⟩
  cq : ∀ wc ∈ (st.conn.ends .server).cq, wc.status = .success → (st.conn.ends .server).executed = 2
  polled : 2 ≤ j → (st.conn.ends .server).executed = 2

end Contents

/-! ### The calls of the two processes -/

/-- The next element of a list, and the rest. -/
theorem drop_eq_cons {α : Type*} {l rest : List α} {k : ℕ} {c : α} (h : l.drop k = c :: rest) :
    l[k]? = some c ∧ rest = l.drop (k + 1) := by
  constructor
  · rw [← List.head?_drop, h, List.head?_cons]
  · rw [← List.tail_drop, h, List.tail_cons]

section Calls

variable {cfg : OsCfg} {k : ℕ} {c : OsCall OsBuf}

variable (cfg) in
/-- The calls of the client, by their places. -/
inductive WriteClientCall : ℕ → OsCall OsBuf → Prop
  | text : WriteClientCall 0 (.store .dataBuf fun mem =>
      snprintf (mem .dataBuf) (cfg.size .client) writeText)
  | write : WriteClientCall 1 (.postSend 0 (.rdmaWrite .dataBuf 0) .dataBuf fun mem =>
      strlen (mem .dataBuf) 0 + 1)
  | pollWrite : WriteClientCall 2 .pollCompletion
  | notify : WriteClientCall 3
      (.store .notifyBuf fun mem => Stream.overlay (mem .notifyBuf) 0
        (strncpy notifyMsg notifySize))
  | send : WriteClientCall 4 (.postSend 1 .send .notifyBuf fun _ => notifySize)
  | pollSend : WriteClientCall 5 .pollCompletion

theorem writeScript_client (h : (writeScript cfg .client)[k]? = some c) :
    WriteClientCall cfg k c := by
  rcases k with _ | _ | _ | _ | _ | _ | k
  all_goals
    simp only [writeScript, List.getElem?_cons_zero, List.getElem?_cons_succ,
      List.getElem?_nil] at h
  · exact Option.some.inj h ▸ .text
  · exact Option.some.inj h ▸ .write
  · exact Option.some.inj h ▸ .pollWrite
  · exact Option.some.inj h ▸ .notify
  · exact Option.some.inj h ▸ .send
  · exact Option.some.inj h ▸ .pollSend
  · cases h

/-- The calls of the server, by their places. -/
inductive WriteServerCall : ℕ → OsCall OsBuf → Prop
  | postRecv : WriteServerCall 0 (.postRecv ⟨2, .notifyBuf, notifySize⟩)
  | poll : WriteServerCall 1 .pollCompletion

theorem writeScript_server (h : (writeScript cfg .server)[k]? = some c) : WriteServerCall k c := by
  rcases k with _ | _ | k
  all_goals
    simp only [writeScript, List.getElem?_cons_zero, List.getElem?_cons_succ,
      List.getElem?_nil] at h
  · exact Option.some.inj h ▸ .postRecv
  · exact Option.some.inj h ▸ .poll
  · cases h

end Calls

namespace WriteInv

variable {cfg : OsCfg} {k j : ℕ} {st st' : OsState OsBuf}

theorem start : WriteInv cfg 0 0 (osStart (writeScript cfg) cfg.mem) where
  client := rfl
  server := rfl
  posted := rfl
  dataBuf := rfl
  notifyBuf := fun h => absurd h (by decide)
  wire := nofun
  region := rfl
  size := List.length_replicate
  notified := nofun
  rq := nofun
  cq := nofun
  polled := nofun

/-- The client goes on, and nothing else changes. -/
theorem of_client (h : WriteInv cfg k j st) {k' : ℕ} (hproc : st'.procs .server = st.procs .server)
    (hend : st'.conn.ends .server = st.conn.ends .server)
    (hwire : st'.conn.wire .client = st.conn.wire .client)
    (hclient : (st'.procs .client).todo = (writeScript cfg .client).drop k')
    (hposted : (st'.conn.ends .client).posted = cfg.requests.take (postedAfter k'))
    (hdata : (st'.conn.ends .client).mem .dataBuf = if k' = 0 then cfg.mem .client .dataBuf
      else cfg.stored)
    (hnotify : 4 ≤ k' →
      Stream.window ((st'.conn.ends .client).mem .notifyBuf) 0 notifySize = notification) :
    WriteInv cfg k' j st' := by
  refine ⟨hclient, ?_, hposted, hdata, hnotify, ?_, ?_, ?_, ?_, ?_, ?_, ?_⟩
  · rw [hproc]
    exact h.server
  · rw [hwire, hend]
    exact h.wire
  · rw [hend]
    exact h.region
  · rw [hend]
    exact h.size
  · rw [hend]
    exact h.notified
  · rw [hend]
    exact h.rq
  · rw [hend]
    exact h.cq
  · rw [hend]
    exact h.polled

/-- The next call of the client. -/
theorem client_call (h : WriteInv cfg k j st) {c : OsCall OsBuf} {rest : List (OsCall OsBuf)}
    (htodo : (st.procs .client).todo = c :: rest) :
    WriteClientCall cfg k c ∧ rest = (writeScript cfg .client).drop (k + 1) := by
  obtain ⟨hcall, hrest⟩ := drop_eq_cons (h.client.symm.trans htodo)
  exact ⟨writeScript_client hcall, hrest⟩

/-- The next call of the server. -/
theorem server_call (h : WriteInv cfg k j st) {c : OsCall OsBuf} {rest : List (OsCall OsBuf)}
    (htodo : (st.procs .server).todo = c :: rest) :
    WriteServerCall j c ∧ rest = (writeScript cfg .server).drop (j + 1) := by
  obtain ⟨hcall, hrest⟩ := drop_eq_cons (h.server.symm.trans htodo)
  exact ⟨writeScript_server hcall, hrest⟩

/-- A move of the process of the client. -/
theorem client_move (h : WriteInv cfg k j st) (hm : OsMove st .client st') :
    ∃ k', WriteInv cfg k' j st' := by
  cases hm with
  | store addr bytes rest htodo =>
    obtain ⟨hcall, rfl⟩ := h.client_call htodo
    cases hcall with
    | text =>
      refine ⟨1, h.of_client rfl rfl rfl rfl h.posted ?_ nofun⟩
      change snprintf ((st.conn.ends .client).mem .dataBuf) _ _ = _
      rw [h.dataBuf]
      rfl
    | notify =>
      refine ⟨4, h.of_client rfl rfl rfl rfl h.posted h.dataBuf fun _ => ?_⟩
      have hlen : notification.length = notifySize := length_strncpy
      have htake := Stream.take_overlay_zero ((st.conn.ends .client).mem .notifyBuf) notification
      rw [hlen] at htake
      exact htake
  | check rest htodo =>
    obtain ⟨hcall, -⟩ := h.client_call htodo
    cases hcall
  | postSend wrId op addr length rest htodo =>
    obtain ⟨hcall, rfl⟩ := h.client_call htodo
    cases hcall with
    | write =>
      -- the string and its null byte
      refine ⟨2, h.of_client rfl rfl rfl rfl ?_ h.dataBuf nofun⟩
      have hdata : (st.conn.ends .client).mem .dataBuf = cfg.stored := h.dataBuf
      change (st.conn.ends .client).posted ++ [⟨⟨0, .dataBuf, strlen _ 0 + 1⟩, _⟩] = _
      rw [hdata, h.posted]
      rfl
    | send =>
      refine ⟨5, h.of_client rfl rfl rfl rfl ?_ h.dataBuf fun _ => h.notifyBuf le_rfl⟩
      change (st.conn.ends .client).posted ++ [_] = _
      rw [h.posted]
      rfl
  | postRecv wr rest htodo =>
    obtain ⟨hcall, -⟩ := h.client_call htodo
    cases hcall
  | wait => exact ⟨k, h⟩
  | polled wc cq rest htodo hcq hwc =>
    obtain ⟨hcall, rfl⟩ := h.client_call htodo
    cases hcall with
    | pollWrite => exact ⟨3, h.of_client rfl rfl rfl rfl h.posted h.dataBuf nofun⟩
    | pollSend =>
      exact ⟨6, h.of_client rfl rfl rfl rfl h.posted h.dataBuf fun _ => h.notifyBuf (by decide)⟩
  | exit => exact ⟨k, h.of_client rfl rfl rfl h.client h.posted h.dataBuf h.notifyBuf⟩
  | exitPolled wc cq hcq =>
    exact ⟨k, h.of_client rfl rfl rfl h.client h.posted h.dataBuf h.notifyBuf⟩

/-- The server goes on, and nothing else changes but its queues. -/
theorem of_server (h : WriteInv cfg k j st) {j' : ℕ} (hproc : st'.procs .client = st.procs .client)
    (hend : st'.conn.ends .client = st.conn.ends .client)
    (hwire : st'.conn.wire .client = st.conn.wire .client)
    (hmem : (st'.conn.ends .server).mem = (st.conn.ends .server).mem)
    (hexec : (st'.conn.ends .server).executed = (st.conn.ends .server).executed)
    (hserver : (st'.procs .server).todo = (writeScript cfg .server).drop j')
    (hrq : ∀ wr ∈ (st'.conn.ends .server).rq, wr = ⟨2, .notifyBuf, notifySize⟩)
    (hcq : ∀ wc ∈ (st'.conn.ends .server).cq, wc.status = .success →
      (st.conn.ends .server).executed = 2)
    (hpolled : 2 ≤ j' → (st.conn.ends .server).executed = 2) : WriteInv cfg k j' st' := by
  refine ⟨?_, hserver, ?_, ?_, ?_, ?_, ?_, ?_, ?_, hrq, ?_, ?_⟩
  · rw [hproc]
    exact h.client
  · rw [hend]
    exact h.posted
  · rw [hend]
    exact h.dataBuf
  · rw [hend]
    exact h.notifyBuf
  · rw [hwire, hexec]
    exact h.wire
  · rw [hmem, hexec]
    exact h.region
  · rw [hmem]
    exact h.size
  · rw [hmem, hexec]
    exact h.notified
  · rw [hexec]
    exact hcq
  · rw [hexec]
    exact hpolled

/-- A move of the process of the server. -/
theorem server_move (h : WriteInv cfg k j st) (hm : OsMove st .server st') :
    ∃ j', WriteInv cfg k j' st' := by
  cases hm with
  | store addr bytes rest htodo | check rest htodo | postSend wrId op addr length rest htodo =>
    obtain ⟨hcall, -⟩ := h.server_call htodo
    cases hcall
  | postRecv wr rest htodo =>
    obtain ⟨hcall, rfl⟩ := h.server_call htodo
    cases hcall with
    | postRecv =>
      refine ⟨1, h.of_server rfl rfl rfl rfl rfl rfl (fun wr' hwr' => ?_) h.cq nofun⟩
      rcases List.mem_append.mp hwr' with hold | hnew
      · exact h.rq wr' hold
      · exact List.mem_singleton.mp hnew
  | wait => exact ⟨j, h⟩
  | polled wc cq rest htodo hcq hwc =>
    obtain ⟨-, rfl⟩ := h.server_call htodo
    have hexec := h.cq wc (hcq ▸ List.mem_cons_self) hwc
    exact ⟨j + 1, h.of_server rfl rfl rfl rfl rfl rfl h.rq (fun _ _ _ => hexec) fun _ => hexec⟩
  | exit => exact ⟨j, h.of_server rfl rfl rfl rfl rfl h.server h.rq h.cq h.polled⟩
  | exitPolled wc cq hcq =>
    refine ⟨j, h.of_server rfl rfl rfl rfl rfl h.server h.rq (fun wc' hwc' => ?_) h.polled⟩
    exact h.cq wc' (hcq ▸ List.mem_cons_of_mem _ hwc')

/-! ### The devices -/

/-- What the client posts. -/
theorem posted_cases (h : WriteInv cfg k j st) {i : ℕ} {wr : MsgWr OsBuf}
    (hwr : (st.conn.ends .client).posted[i]? = some wr) :
    cfg.messages[i]? = some ((st.conn.ends .client).message wr) := by
  rw [h.posted, List.getElem?_take] at hwr
  split at hwr
  · rename_i hi
    rcases i with _ | _ | i
    · -- the Write is posted when the text is there
      obtain rfl := Option.some.inj hwr
      have hk : k ≠ 0 := by
        rintro rfl
        exact absurd hi (by decide)
      have hdata := h.dataBuf
      rw [if_neg hk] at hdata
      rw [MsgEnd.message, hdata]
      rfl
    · -- the Send is posted when the notification is
      obtain rfl := Option.some.inj hwr
      have hk : 4 ≤ k := by
        by_contra hlt
        rw [postedAfter, if_pos (by omega : k ≤ 4)] at hi
        split at hi <;> omega
      rw [MsgEnd.message, h.notifyBuf hk]
      rfl
    · cases hwr
  · cases hwr

/-- **What is on its way** tells how many requests have been executed. -/
theorem wire_cases (h : WriteInv cfg k j st) {m : Msg OsBuf} {rest : List (Msg OsBuf)}
    (hwire : st.conn.wire .client = m :: rest) :
    ((st.conn.ends .server).executed = 0 ∧ m = .write .dataBuf 0 cfg.written) ∨
    ((st.conn.ends .server).executed = 1 ∧ m = .send notification) := by
  have hm := h.wire 0 m (hwire ▸ rfl)
  rw [Nat.add_zero] at hm
  rcases hexec : (st.conn.ends .server).executed with _ | _ | n
  · rw [hexec] at hm
    exact Or.inl ⟨rfl, (Option.some.inj hm).symm⟩
  · rw [hexec] at hm
    exact Or.inr ⟨rfl, (Option.some.inj hm).symm⟩
  · rw [hexec] at hm
    cases hm

/-- What stays on its way when the first of it is executed. -/
theorem wire_tail (h : WriteInv cfg k j st) {m : Msg OsBuf} {rest : List (Msg OsBuf)}
    (hwire : st.conn.wire .client = m :: rest) (i : ℕ) (m' : Msg OsBuf) (hm' : rest[i]? = some m') :
    cfg.messages[(st.conn.ends .server).executed + 1 + i]? = some m' := by
  have htail := h.wire (i + 1) m' (hwire ▸ hm')
  rwa [Nat.add_comm i, ← Nat.add_assoc] at htail

/-- A move of the device of the client. -/
theorem client_device (h : WriteInv cfg k j st) (ho : st.Ordered) {conn : MsgConn OsBuf}
    (hm : MsgMove st.conn .client conn) : WriteInv cfg k j { st with conn := conn } := by
  cases hm with
  | send wr hwr herr =>
    refine ⟨h.client, h.server, h.posted, h.dataBuf, h.notifyBuf, fun i m hi => ?_, h.region,
      h.size, h.notified, h.rq, h.cq, h.polled⟩
    change (st.conn.wire .client ++ [_])[i]? = some m at hi
    rw [List.getElem?_append] at hi
    split at hi
    · exact h.wire i m hi
    · -- what is sent now stands behind what is on its way
      obtain ⟨hlt, rfl⟩ := List.getElem?_eq_some_iff.mp hi
      have hcount := (ho.counted .client).wire_eq
      have hplace : (st.conn.ends .server).executed + i = (st.conn.ends .client).sent := by
        rw [List.length_singleton] at hlt
        rw [← hcount]
        change _ = (st.conn.ends .server).executed + _
        omega
      rw [List.getElem_singleton]
      change cfg.messages[(st.conn.ends .server).executed + i]? = _
      rw [hplace]
      exact h.posted_cases hwr
  | receive data rest wr rq hwire hrq hfits =>
    rcases h.wire_cases hwire with ⟨-, hm⟩ | ⟨hexec, hm⟩
    · cases hm
    · obtain rfl := Msg.send.inj hm
      obtain rfl := h.rq wr (hrq ▸ List.mem_cons_self)
      have hdone : (st.conn.ends .server).executed + 1 = 2 := congrArg (· + 1) hexec
      have hbuf : Stream.overlay ((st.conn.ends .server).mem .notifyBuf) 0 notification =
          notification := by
        have htake := Stream.take_overlay_zero ((st.conn.ends .server).mem .notifyBuf) notification
        have hlen : notification.length = notifySize := length_strncpy
        have hle : 0 + notification.length ≤ ((st.conn.ends .server).mem .notifyBuf).length := by
          rw [h.size, hlen, Nat.zero_add]
        rwa [List.take_of_length_le] at htake
        rw [Stream.length_overlay hle, h.size, hlen]
      refine ⟨h.client, h.server, h.posted, h.dataBuf, h.notifyBuf, ?_, ?_, ?_, fun _ => hbuf, ?_,
        fun _ _ _ => hdone, fun _ => hdone⟩
      · exact h.wire_tail hwire
      · change (st.conn.ends .server).mem .dataBuf =
          cfg.region ((st.conn.ends .server).executed + 1)
        rw [h.region, hexec]
        rfl
      · exact (congrArg List.length hbuf).trans length_strncpy
      · exact fun wr' hwr' => h.rq wr' (hrq ▸ List.mem_cons_of_mem _ hwr')
  | tooLong data rest wr rq hwire hrq hlong =>
    -- the receive takes as much as the Send carries
    rcases h.wire_cases hwire with ⟨-, hm⟩ | ⟨-, hm⟩
    · cases hm
    · obtain rfl := Msg.send.inj hm
      obtain rfl := h.rq wr (hrq ▸ List.mem_cons_self)
      have hlen : notification.length = notifySize := length_strncpy
      exact absurd hlong hlen.not_gt
  | write raddr off data rest hwire hfits =>
    rcases h.wire_cases hwire with ⟨hexec, hm⟩ | ⟨-, hm⟩
    · obtain ⟨rfl, rfl, rfl⟩ := Msg.write.inj hm
      have hnot : ∀ {p : Prop}, (st.conn.ends .server).executed = 2 → p := fun h2 =>
        absurd (hexec.symm.trans h2) (by decide)
      refine ⟨h.client, h.server, h.posted, h.dataBuf, h.notifyBuf, h.wire_tail hwire, ?_, h.size,
        fun h2 => ?_, h.rq, fun wc hwc hok => hnot (h.cq wc hwc hok), fun h2 => hnot (h.polled h2)⟩
      · change Stream.overlay ((st.conn.ends .server).mem .dataBuf) 0 cfg.written =
          cfg.region ((st.conn.ends .server).executed + 1)
        rw [h.region, hexec]
        rfl
      · have h1 : (st.conn.ends .server).executed + 1 = 2 := h2
        rw [hexec] at h1
        cases h1
    · cases hm
  | read addr length raddr off data rest hwire hfits hdata =>
    rcases h.wire_cases hwire with ⟨-, hm⟩ | ⟨-, hm⟩
    all_goals cases hm
  | complete wr hwr herr hlt =>
    exact h.of_client rfl rfl rfl h.client h.posted h.dataBuf h.notifyBuf

/-- **A step** of the programs. -/
theorem next (h : WriteInv cfg k j st) (ho : st.Ordered) {l : OsLabel} (hs : st.next l = some st') :
    ∃ k' j', WriteInv cfg k' j' st' := by
  rcases OsState.next_move hs with ⟨s, -, hm⟩ | ⟨s, conn, rfl, hm⟩
  · cases s with
    | client =>
      obtain ⟨k', hk⟩ := h.client_move hm
      exact ⟨k', j, hk⟩
    | server =>
      obtain ⟨j', hj⟩ := h.server_move hm
      exact ⟨k, j', hj⟩
  · refine ⟨k, j, ?_⟩
    cases s with
    | client =>
      rcases hm with hm | hm
      · exact h.client_device ho hm
      · cases hm with
        | fail wr status hwr hstatus =>
          exact h.of_client rfl rfl rfl h.client h.posted h.dataBuf h.notifyBuf
        | flush wr rest status hrq hstatus =>
          exact h.of_client rfl rfl rfl h.client h.posted h.dataBuf h.notifyBuf
    | server =>
      obtain ⟨wr, rest, status, hrq, hstatus, rfl⟩ := ho.server_device_eq hm
      refine h.of_server rfl rfl rfl rfl rfl h.server (fun wr' hwr' => ?_) (fun wc hwc hok => ?_)
        h.polled
      · exact h.rq wr' (hrq ▸ List.mem_cons_of_mem _ hwr')
      · rcases List.mem_append.mp hwc with hold | hnew
        · exact h.cq wc hold hok
        · rw [List.mem_singleton.mp hnew] at hok
          exact absurd hok hstatus

/-- **The invariant holds in every run**, whatever fails. -/
theorem of_reach {ok : OsState OsBuf → OsLabel → Prop} (h : (writeLts cfg).Reach ok st) :
    ∃ k j, WriteInv cfg k j st := by
  refine h.invariant_of (I := fun a => ∃ k j, WriteInv cfg k j a) (J := OsState.Ordered)
    (fun a => OsState.ordered_of_reach (careful_writeScript cfg) (waiting_writeScript cfg)) ?_ ?_
  · rintro _ rfl
    exact ⟨0, 0, start⟩
  · rintro a l b ho ⟨k, j, hw⟩ _ hs
    exact hw.next ho hs

end WriteInv

/-! ### What has been delivered -/

/-- **rdma_write has delivered**: the data buffer of the server holds the string that
`snprintf` has left in that of the client, its null byte, and zeros; the notification
has come, too. -/
structure WriteDelivered (cfg : OsCfg) (st : OsState OsBuf) : Prop where
  text : str ((st.conn.ends .client).mem .dataBuf) 0 = writeText.take (cfg.size .client - 1)
  dataBuf : (st.conn.ends .server).mem .dataBuf =
    str ((st.conn.ends .client).mem .dataBuf) 0 ++ [0] ++
      List.replicate (cfg.size .server - (strlen ((st.conn.ends .client).mem .dataBuf) 0 + 1)) 0
  notified : (st.conn.ends .server).mem .notifyBuf = strncpy notifyMsg notifySize
  notifyBuf : Stream.window ((st.conn.ends .client).mem .notifyBuf) 0 notifySize =
    (st.conn.ends .server).mem .notifyBuf

section Delivered

variable {cfg : OsCfg} {st : OsState OsBuf}

/-- `snprintf` stores what fits of the text. -/
theorem OsCfg.stored_eq (hsize : 1 ≤ cfg.size .client) :
    cfg.stored = Stream.overlay (cfg.mem .client .dataBuf) 0
      (writeText.take (cfg.size .client - 1) ++ [0]) := by
  rw [OsCfg.stored, snprintf, if_neg (Nat.one_le_iff_ne_zero.mp hsize)]

/-- What fits of the text is the string in the buffer. -/
theorem OsCfg.str_stored (hsize : 1 ≤ cfg.size .client) :
    str cfg.stored 0 = writeText.take (cfg.size .client - 1) := by
  have h0 : (0 : UInt8) ∉ writeText := by decide +kernel
  refine str_of_prefix (fun hmem => h0 (List.mem_of_mem_take hmem)) ?_
  rw [OsCfg.stored_eq hsize, List.drop_zero, Stream.overlay, List.take_zero, List.nil_append]
  exact List.prefix_append _ _

/-- **The Write carries the string and its null byte.** -/
theorem OsCfg.written_eq (hsize : 1 ≤ cfg.size .client) :
    cfg.written = str cfg.stored 0 ++ [0] := by
  have hlen : cfg.writeLen = (writeText.take (cfg.size .client - 1) ++ [0]).length := by
    rw [OsCfg.writeLen, strlen, OsCfg.str_stored hsize, List.length_append, List.length_singleton]
  have htake := Stream.take_overlay_zero (cfg.mem .client .dataBuf)
    (writeText.take (cfg.size .client - 1) ++ [0])
  rw [← hlen, ← OsCfg.stored_eq hsize] at htake
  rw [OsCfg.str_stored hsize]
  exact htake

/-- **When `poll_completion` of the server has returned**, both requests of the client
have been executed, and everything is there. -/
theorem write_delivers (hsize : 1 ≤ cfg.size .client) (h : (writeLts cfg).Reach Lts.any st)
    (hdone : (st.procs .server).todo = []) : WriteDelivered cfg st := by
  obtain ⟨k, j, hw⟩ := WriteInv.of_reach h
  have ho := OsState.ordered_of_reach (careful_writeScript cfg) (waiting_writeScript cfg) h
  have hexec : (st.conn.ends .server).executed = 2 := by
    refine hw.polled ?_
    exact List.drop_eq_nil_iff.mp (hw.server.symm.trans hdone)
  -- both have been posted
  have hk : 4 < k := by
    have hle := (ho.counted .client).executed_le
    rw [hw.posted, List.length_take] at hle
    have hposted : 2 ≤ postedAfter k := hexec.symm.le.trans (hle.trans (Nat.min_le_left _ _))
    by_contra hlt
    rw [postedAfter, if_pos (Nat.not_lt.mp hlt : k ≤ 4)] at hposted
    split at hposted <;> omega
  have hdata : (st.conn.ends .client).mem .dataBuf = cfg.stored := by
    rw [hw.dataBuf, if_neg (by omega)]
  have hregion : (st.conn.ends .server).mem .dataBuf =
      Stream.overlay (List.replicate (cfg.size .server) 0) 0 cfg.written := by
    rw [hw.region, hexec]
    rfl
  constructor
  · rw [hdata, OsCfg.str_stored hsize]
  · rw [hregion, hdata, OsCfg.written_eq hsize, Stream.overlay, List.take_zero, List.nil_append,
      List.drop_replicate, Nat.zero_add, List.length_append, List.length_singleton, strlen]
  · exact hw.notified hexec
  · rw [hw.notified hexec]
    exact hw.notifyBuf hk.le

end Delivered

/-! ### A late receive -/

/-- A client of six bytes and a server of eight. -/
def writeSmall : OsCfg := ⟨.little, fun | .client => 6 | .server => 8⟩

/-- The Send reaches the server before the receive is posted. -/
def writeLate : List OsLabel :=
  [.store .client, .call .client true, .device .client .send, .device .client .execute,
    .device .client .complete, .poll .client .one .success, .store .client, .call .client true,
    .device .client .send, .call .server true, .poll .server .empty .success,
    .device .client .execute, .poll .server .one .success]

/-- **Everything is there** although the receive was posted late. -/
theorem write_delivers_late : ∃ st, (writeLts writeSmall).Reach Lts.any st ∧
    (st.conn.ends .server).mem .dataBuf = ascii "Hello" ++ [0, 0, 0] ∧
    WriteDelivered writeSmall st := by
  have hrun : (Lts.exec OsState.next Lts.any (osStart (writeScript writeSmall) writeSmall.mem)
      writeLate).map (fun st => ((st.procs .server).todo.isEmpty,
        (st.conn.ends .server).mem .dataBuf)) =
        some (true, ascii "Hello" ++ [0, 0, 0]) := by
    decide +kernel
  obtain ⟨st, hexec, hview⟩ := Option.map_eq_some_iff.mp hrun
  obtain ⟨hdone, hdata⟩ := Prod.mk.inj hview
  have hreach : (writeLts writeSmall).Reach Lts.any st := ⟨_, rfl, Lts.path_of_exec hexec⟩
  exact ⟨st, hreach, hdata, write_delivers (by decide) hreach (List.isEmpty_iff.mp hdone)⟩

end RdmaBook
