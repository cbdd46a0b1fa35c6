import RdmaBook.OneSided.Delivery

/-!
# When rdma_write comes to its end

The client of rdma_write does not know how large the region of the server is: it writes its text
with the null byte, cut to its own buffer. So whether the two processes come to their cleanups is
decided by the two buffer sizes. Where the text fits, a run in which nothing has failed can always
go on until both are there: the client waits for its requests, and the server for the Send, which
waits for a receive that the server posts first. Where it does not fit, the device of the server
never carries the Write out, and the Send behind it never comes (`RdmaBook.write_finishes`). -/

namespace RdmaBook

open CString

/-! ### Runs without a failure -/

section Sound

variable {ρ : Type*}

/-- **No call, no check, no completion and no device fails in the step.** -/
def OsNoFailure (_ : OsState ρ) : OsLabel → Prop
  | .store _ => True
  | .call _ ok => ok = true
  | .poll _ ret status => ret ≠ .failed ∧ status = .success
  | .device _ ev => ev.Ok

instance (st : OsState ρ) : DecidablePred (OsNoFailure st)
  | .store _ => inferInstanceAs (Decidable True)
  | .call _ ok => inferInstanceAs (Decidable (ok = true))
  | .poll _ ret status => inferInstanceAs (Decidable (ret ≠ .failed ∧ status = .success))
  | .device _ ev => inferInstanceAs (Decidable ev.Ok)

namespace OsState

variable {st st' : OsState ρ} {s : Side} {l : OsLabel}

theorem exited_advance (rest : List (OsCall ρ)) (conn : MsgConn ρ) :
    ((st.advance s rest conn).procs s).exited = false := by
  simp [advance]

theorem exited_exit (conn : MsgConn ρ) : ((st.exit s conn).procs s).exited = true := by
  simp [exit]

theorem exited_advance_other (rest : List (OsCall ρ)) (conn : MsgConn ρ) :
    ((st.advance s rest conn).procs s.other).exited = (st.procs s.other).exited := by
  simp [advance, Function.update_of_ne s.other_ne]

/-- A process that fails nothing does not exit. -/
theorem exited_of_ok [DecidableEq ρ] (hok : OsNoFailure st l) (hs : st.procNext s l = some st') :
    (st'.procs s).exited = false := by
  simp only [procNext] at hs
  split at hs
  · cases hs
  · rename_i hlive
    split at hs
    · exact Option.some.inj hs ▸ exited_advance ..
    · obtain rfl : _ = true := hok
      exact Option.some.inj hs ▸ exited_advance ..
    · obtain rfl : _ = true := hok
      exact Option.some.inj hs ▸ exited_advance ..
    · obtain rfl : _ = true := hok
      exact Option.some.inj hs ▸ exited_advance ..
    · rename_i ret status htodo
      obtain ⟨hret, rfl⟩ := hok
      cases ret with
      | failed => exact absurd rfl hret
      | empty => exact Option.some.inj hs ▸ Bool.eq_false_iff.mpr hlive
      | one =>
        simp only [poll] at hs
        split at hs
        · cases hs
        · split at hs
          · exact Option.some.inj hs ▸ exited_advance ..
          · cases hs
    · cases hs

/-- Neither process has exited, neither end has failed, and no completion tells of a failure. -/
structure Sound (st : OsState ρ) : Prop where
  live : ∀ s, (st.procs s).exited = false
  error : ∀ s, (st.conn.ends s).error = false
  truthful : ∀ s, (st.conn.ends s).Truthful

/-- A process goes on, with a queue of completions that it may have polled from. -/
theorem Sound.advance (h : st.Sound) {rest : List (OsCall ρ)} {e : MsgEnd ρ}
    (herr : e.error = (st.conn.ends s).error) (hcq : ∀ wc ∈ e.cq, wc ∈ (st.conn.ends s).cq) :
    (st.advance s rest (st.conn.set s e)).Sound where
  live := fun t => by
    rcases Side.eq_or_eq_other s t with rfl | rfl
    · exact exited_advance ..
    · exact (exited_advance_other ..).trans (h.live s.other)
  error := MsgConn.forall_ends_set (P := fun _ e => e.error = false) (herr.trans (h.error s))
    (h.error s.other)
  truthful := MsgConn.forall_ends_set (P := fun _ e => e.Truthful)
    (fun _ wc hwc => h.truthful s (h.error s) wc (hcq wc hwc)) (h.truthful s.other)

/-- **A step of a process that fails nothing** is none of its exits. -/
theorem Sound.proc [DecidableEq ρ] (h : st.Sound) (hok : OsNoFailure st l)
    (hs : st.procNext s l = some st') :
    OsMove st s st' ∧ st'.Sound := by
  have hlive := exited_of_ok hok hs
  have hmove := (OsState.proc_move hs).2
  refine ⟨hmove, ?_⟩
  cases hmove with
  | store addr bytes rest htodo => exact h.advance rfl fun _ => id
  | check rest htodo =>
    refine ⟨fun t => ?_, h.error, h.truthful⟩
    rcases Side.eq_or_eq_other s t with rfl | rfl
    · exact exited_advance ..
    · exact (exited_advance_other ..).trans (h.live s.other)
  | postSend wrId op addr length rest htodo => exact h.advance rfl fun _ => id
  | postRecv wr rest htodo => exact h.advance rfl fun _ => id
  | wait => exact h
  | polled wc cq rest htodo hcq hwc =>
    exact h.advance rfl fun wc hwc => hcq ▸ List.mem_cons_of_mem _ hwc
  | exit | exitPolled => exact Bool.noConfusion ((exited_exit _).symm.trans hlive)

/-- The device of one side fails nothing. -/
theorem Sound.device [DecidableEq ρ] (h : st.Sound) {conn : MsgConn ρ} (hm : MsgMove st.conn s conn)
    (herr : ∀ t, (conn.ends t).error = false) : ({ st with conn := conn } : OsState ρ).Sound :=
  ⟨h.live, herr, hm.truthful h.truthful⟩

end OsState

end Sound

/-- A device of one side does not fail its own end. -/
theorem MsgMove.error_self {ρ : Type*} [DecidableEq ρ] {k k' : MsgConn ρ} {s : Side}
    (hm : MsgMove k s k') :
    (k'.ends s).error = (k.ends s).error := by
  cases hm <;> simp [MsgEnd.complete, MsgEnd.store]

/-! ### The server of rdma_write -/

/-- **The server before, while and after it waits for its completion**: the receive it has posted is
there until the Send has come, and then its completion is. -/
inductive WriteServer (st : OsState OsBuf) : Prop
  | fresh (htodo : (st.procs .server).todo = [.postRecv ⟨2, .notifyBuf, notifySize⟩,
      .pollCompletion])
      (hrq : (st.conn.ends .server).rq = []) (hexec : (st.conn.ends .server).executed ≤ 1)
  | listening (htodo : (st.procs .server).todo = [.pollCompletion])
      (hrq : (st.conn.ends .server).rq = [⟨2, .notifyBuf, notifySize⟩])
      (hexec : (st.conn.ends .server).executed ≤ 1)
  | heard (htodo : (st.procs .server).todo = [.pollCompletion])
      (hcq : (st.conn.ends .server).cq ≠ [])
  | finished (htodo : (st.procs .server).todo = [])

/-- **What a run of rdma_write keeps in which nothing fails.** -/
structure WriteLive (cfg : OsCfg) (st : OsState OsBuf) : Prop where
  sound : st.Sound
  ordered : st.Ordered
  inv : ∃ k j, WriteInv cfg k j st
  server : WriteServer st

section Live

variable {cfg : OsCfg} {st st' : OsState OsBuf} {s : Side}

theorem WriteServer.congr (h : WriteServer st)
    (htodo : (st'.procs .server).todo = (st.procs .server).todo)
    (hrq : (st'.conn.ends .server).rq = (st.conn.ends .server).rq)
    (hcq : (st'.conn.ends .server).cq = (st.conn.ends .server).cq)
    (hexec : (st'.conn.ends .server).executed = (st.conn.ends .server).executed) :
    WriteServer st' := by
  cases h with
  | fresh h1 h2 h3 => exact .fresh (htodo.trans h1) (hrq.trans h2) (hexec.trans_le h3)
  | listening h1 h2 h3 => exact .listening (htodo.trans h1) (hrq.trans h2) (hexec.trans_le h3)
  | heard h1 h2 => exact .heard (htodo.trans h1) fun hnil => h2 (hcq.symm.trans hnil)
  | finished h1 => exact .finished (htodo.trans h1)

/-- The process of the server. -/
theorem WriteServer.server_move (h : WriteServer st) (hm : OsMove st .server st')
    (hlive : (st'.procs .server).exited = false) : WriteServer st' := by
  have hexit : ∀ {conn}, st' = st.exit .server conn → WriteServer st' := fun heq =>
    Bool.noConfusion ((OsState.exited_exit _).symm.trans (heq ▸ hlive))
  cases h with
  | fresh htodo hrq hexec =>
    cases hm with
    | postRecv wr rest htodo' =>
      rw [htodo] at htodo'
      cases htodo'
      exact .listening rfl (congrArg (· ++ [_]) hrq) hexec
    | wait => exact .fresh htodo hrq hexec
    | exit | exitPolled => exact hexit rfl
    | store _ _ _ h' | check _ h' | postSend _ _ _ _ _ h' | polled _ _ _ h' =>
      rw [htodo] at h'
      cases h'
  | listening htodo hrq hexec =>
    cases hm with
    | polled wc cq rest htodo' hcq hwc =>
      rw [htodo] at htodo'
      cases htodo'
      exact .finished rfl
    | wait => exact .listening htodo hrq hexec
    | exit | exitPolled => exact hexit rfl
    | store _ _ _ h' | check _ h' | postSend _ _ _ _ _ h' | postRecv _ _ h' =>
      rw [htodo] at h'
      cases h'
  | heard htodo hcq' =>
    cases hm with
    | polled wc cq rest htodo' hcq hwc =>
      rw [htodo] at htodo'
      cases htodo'
      exact .finished rfl
    | wait => exact .heard htodo hcq'
    | exit | exitPolled => exact hexit rfl
    | store _ _ _ h' | check _ h' | postSend _ _ _ _ _ h' | postRecv _ _ h' =>
      rw [htodo] at h'
      cases h'
  | finished htodo =>
    cases hm with
    | wait => exact .finished htodo
    | exit | exitPolled => exact hexit rfl
    | store _ _ _ h' | check _ h' | postSend _ _ _ _ _ h' | postRecv _ _ h' | polled _ _ _ h' =>
      rw [htodo] at h'
      cases h'

/-- A move of the device of the client: the Send fills the receive of the server. -/
theorem WriteServer.client_device (h : WriteServer st) {k j : ℕ} (hi : WriteInv cfg k j st)
    {conn : MsgConn OsBuf} (hm : MsgMove st.conn .client conn) :
    WriteServer { st with conn := conn } ∧
    ((conn.ends .server).error = (st.conn.ends .server).error) := by
  cases hm with
  | send wr hwr herr => exact ⟨h.congr rfl rfl rfl rfl, rfl⟩
  | complete wr hwr herr hlt => exact ⟨h.congr rfl rfl rfl rfl, rfl⟩
  | read addr length raddr off data rest hwire hfits hdata =>
    rcases hi.wire_cases hwire with ⟨-, hm⟩ | ⟨-, hm⟩
    all_goals cases hm
  | write raddr off data rest hwire hfits =>
    refine ⟨?_, rfl⟩
    rcases hi.wire_cases hwire with ⟨hexec, -⟩ | ⟨-, hm⟩
    · have hone : (st.conn.ends .server).executed + 1 ≤ 1 := by omega
      cases h with
      | fresh h1 h2 h3 => exact .fresh h1 h2 hone
      | listening h1 h2 h3 => exact .listening h1 h2 hone
      | heard h1 h2 => exact .heard h1 h2
      | finished h1 => exact .finished h1
    · cases hm
  | receive data rest wr rq hwire hrq hfits =>
    refine ⟨?_, rfl⟩
    cases h with
    | fresh h1 h2 h3 => exact absurd (hrq.symm.trans h2) (List.cons_ne_nil wr rq)
    | listening h1 h2 h3 =>
      refine .heard h1 (List.append_ne_nil_of_right_ne_nil _ ?_)
      exact List.cons_ne_nil _ _
    | heard h1 h2 => exact .heard h1 (List.append_ne_nil_of_left_ne_nil h2 _)
    | finished h1 => exact .finished h1
  | tooLong data rest wr rq hwire hrq hlong =>
    -- the receive takes as much as the Send carries
    rcases hi.wire_cases hwire with ⟨-, hm⟩ | ⟨-, hm⟩
    · cases hm
    · obtain rfl := Msg.send.inj hm
      obtain rfl := hi.rq wr (hrq ▸ List.mem_cons_self)
      have hlen : notification.length = notifySize := length_strncpy
      exact absurd hlong hlen.not_gt

/-- A process of the client does not touch the server. -/
theorem WriteServer.client_move (h : WriteServer st) (hm : OsMove st .client st') :
    WriteServer st' := by
  have hsame : st'.conn.ends .server = st.conn.ends .server ∧
      st'.procs .server = st.procs .server := by
    cases hm <;> exact ⟨rfl, rfl⟩
  refine h.congr ?_ ?_ ?_ ?_
  · rw [hsame.2]
  all_goals rw [hsame.1]

theorem WriteLive.next (h : WriteLive cfg st) {l : OsLabel} (hok : OsNoFailure st l)
    (hs : st.next l = some st') : WriteLive cfg st' := by
  obtain ⟨k, j, hinv⟩ := h.inv
  have hordered := h.ordered.next hs
  have hinv' := hinv.next h.ordered hs
  have hproc : ∀ s, st.procNext s l = some st' → WriteLive cfg st' := by
    intro s hs
    obtain ⟨hm, hsound⟩ := h.sound.proc hok hs
    refine ⟨hsound, hordered, hinv', ?_⟩
    cases s with
    | client => exact h.server.client_move hm
    | server => exact h.server.server_move hm (hsound.live .server)
  cases l with
  | store s => exact hproc s hs
  | call s ok => exact hproc s hs
  | poll s ret status => exact hproc s hs
  | device s ev =>
    obtain ⟨conn, hconn, rfl⟩ := Option.map_eq_some_iff.mp hs
    have hm := MsgConn.next_move hok hconn
    cases s with
    | server =>
      -- the only thing its device could do is to fail a receive
      obtain ⟨wr, rest, status, -, -, rfl⟩ := h.ordered.server_device_eq (Or.inl hm)
      have herr := hm.error_self
      rw [MsgConn.ends_set_self] at herr
      exact Bool.noConfusion (herr.trans (h.sound.error .server))
    | client =>
      obtain ⟨hserver, herr⟩ := h.server.client_device hinv hm
      refine ⟨h.sound.device hm fun t => ?_, hordered, hinv', hserver⟩
      cases t with
      | client => exact hm.error_self.trans (h.sound.error .client)
      | server => exact herr.trans (h.sound.error .server)

theorem WriteLive.of_reach (h : (writeLts cfg).Reach OsNoFailure st) : WriteLive cfg st := by
  refine h.invariant ?_ fun a l b ha hok hs => ha.next hok hs
  rintro _ rfl
  refine ⟨⟨fun _ => rfl, fun _ => rfl, fun _ _ _ hwc => absurd hwc List.not_mem_nil⟩,
    OsState.Ordered.start (careful_writeScript cfg) (waiting_writeScript cfg),
    ⟨0, 0, WriteInv.start⟩, .fresh rfl rfl (Nat.zero_le 1)⟩

end Live

/-! ### What is left to do -/

/-- **What is left to do**: four for each call, as a request that is posted leaves three things to
the devices. -/
def OsState.left {ρ : Type*} (st : OsState ρ) : ℕ :=
  4 * ((st.procs .client).todo.length + (st.procs .server).todo.length) + st.conn.left .client

section Left

variable {ρ : Type*} {st : OsState ρ} {s : Side} {c : OsCall ρ} {rest : List (OsCall ρ)}

/-- A call is made. -/
theorem OsState.left_advance {conn : MsgConn ρ} (htodo : (st.procs s).todo = c :: rest)
    (hconn : conn.left .client ≤ st.conn.left .client + 3) :
    (st.advance s rest conn).left < st.left := by
  have hlen : (st.procs s).todo.length = rest.length + 1 := by rw [htodo, List.length_cons]
  cases s <;> simp [OsState.left, OsState.advance] <;> omega

/-- An end is replaced, and nothing that is counted changes. -/
theorem MsgConn.left_set {k : MsgConn ρ} {e : MsgEnd ρ} (hposted : e.posted = (k.ends s).posted)
    (hsent : e.sent = (k.ends s).sent) (hacked : e.acked = (k.ends s).acked)
    (hexec : e.executed = (k.ends s).executed) (t : Side) : (k.set s e).left t = k.left t := by
  have hsame : ∀ t, ((k.set s e).ends t).posted = (k.ends t).posted ∧
      ((k.set s e).ends t).sent = (k.ends t).sent ∧
      ((k.set s e).ends t).acked = (k.ends t).acked ∧
      ((k.set s e).ends t).executed = (k.ends t).executed :=
    MsgConn.forall_ends_set (P := fun t e => e.posted = (k.ends t).posted ∧
      e.sent = (k.ends t).sent ∧
      e.acked = (k.ends t).acked ∧ e.executed = (k.ends t).executed)
      ⟨hposted, hsent, hacked, hexec⟩ ⟨rfl, rfl, rfl, rfl⟩
  exact MsgConn.left_congr (congrArg List.length (hsame t).1) (hsame t).2.1 (hsame t).2.2.1
    (hsame t.other).2.2.2

end Left

/-- A step leaves less to do. -/
def OsState.Advances (st : OsState OsBuf) : Prop :=
  ∃ l st', OsNoFailure st l ∧ st.next l = some st' ∧ st'.left < st.left

section Advances

variable {st : OsState OsBuf} {s : Side} {rest : List (OsCall OsBuf)}

theorem OsState.advances_store {addr : OsBuf} {bytes : (OsBuf → List UInt8) → List UInt8}
    (hlive : (st.procs s).exited = false) (htodo : (st.procs s).todo = .store addr bytes :: rest) :
    st.Advances := by
  let e := (st.conn.ends s).store addr (bytes (st.conn.ends s).mem)
  have hleft : (st.conn.set s e).left .client = st.conn.left .client :=
    MsgConn.left_set (k := st.conn) (s := s) (e := e) rfl rfl rfl rfl .client
  refine ⟨.store s, st.advance s rest (st.conn.set s e), trivial, ?_, left_advance htodo (by omega)⟩
  simp only [next, procNext, hlive, htodo, Bool.false_eq_true, if_false, e]

theorem OsState.advances_postRecv {wr : RcWr OsBuf} (hlive : (st.procs s).exited = false)
    (htodo : (st.procs s).todo = .postRecv wr :: rest) : st.Advances := by
  let e := (st.conn.ends s).postRecv wr
  have hleft : (st.conn.set s e).left .client = st.conn.left .client :=
    MsgConn.left_set (k := st.conn) (s := s) (e := e) rfl rfl rfl rfl .client
  refine ⟨.call s true, st.advance s rest (st.conn.set s e), rfl, ?_, left_advance htodo (by omega)⟩
  simp only [next, procNext, hlive, htodo, Bool.false_eq_true, if_false, if_true, e]

theorem OsState.advances_postSend {wrId : ℕ} {op : RcOp OsBuf} {addr : OsBuf}
    {length : (OsBuf → List UInt8) → ℕ} (hlive : (st.procs .client).exited = false)
    (htodo : (st.procs .client).todo = .postSend wrId op addr length :: rest) : st.Advances := by
  let e := (st.conn.ends .client).postSend ⟨⟨wrId, addr, length (st.conn.ends .client).mem⟩, op⟩
  have hleft : (st.conn.set .client e).left .client ≤ st.conn.left .client + 3 := by
    simp only [e, MsgConn.left, MsgConn.ends_set_self, MsgConn.ends_set_other, MsgEnd.postSend,
      List.length_append, List.length_singleton]
    omega
  refine ⟨.call .client true, st.advance .client rest (st.conn.set .client e), rfl, ?_,
    left_advance htodo hleft⟩
  simp only [next, procNext, hlive, htodo, Bool.false_eq_true, if_false, if_true, e]

/-- **A process with a completion in its queue** goes on. -/
theorem OsState.Sound.advances_poll (h : st.Sound)
    (htodo : (st.procs s).todo = .pollCompletion :: rest)
    (hcq : (st.conn.ends s).cq ≠ []) : st.Advances := by
  obtain ⟨wc, cq, hcq⟩ := List.exists_cons_of_ne_nil hcq
  have hwc : wc.status = .success := h.truthful s (h.error s) wc (hcq ▸ List.mem_cons_self)
  let e := { st.conn.ends s with cq := cq }
  have hleft : (st.conn.set s e).left .client = st.conn.left .client :=
    MsgConn.left_set (k := st.conn) (s := s) (e := e) rfl rfl rfl rfl .client
  refine ⟨.poll s .one .success, st.advance s rest (st.conn.set s e), ⟨by decide, rfl⟩, ?_,
    left_advance htodo (by omega)⟩
  simp only [next, procNext, h.live s, htodo, poll, hcq, hwc, Bool.false_eq_true, if_false, if_true,
    e]

end Advances

/-! ### Where the text fits -/

/-- **The text and its null byte**, cut to the buffer of the client, fit the region of the
server. -/
def OsCfg.TextFits (cfg : OsCfg) : Prop :=
  min (writeText.length + 1) (cfg.size .client) ≤ cfg.size .server

instance (cfg : OsCfg) : Decidable cfg.TextFits := inferInstanceAs (Decidable (_ ≤ _))

section Fits

variable {cfg : OsCfg} {st : OsState OsBuf}

theorem OsCfg.length_written (hsize : 1 ≤ cfg.size .client) :
    cfg.written.length = min (writeText.length + 1) (cfg.size .client) := by
  rw [cfg.written_eq hsize, cfg.str_stored hsize, List.length_append, List.length_singleton,
    List.length_take]
  omega

theorem length_region_zero (cfg : OsCfg) : (cfg.region 0).length = cfg.size .server :=
  List.length_replicate

/-- A server without a call left has made both. -/
theorem WriteInv.le_of_server_nil {k j : ℕ} (h : WriteInv cfg k j st)
    (htodo : (st.procs .server).todo = []) :
    2 ≤ j :=
  List.drop_eq_nil_iff.mp (h.server.symm.trans htodo)

/-- A client without a call left has made all six. -/
theorem WriteInv.le_of_client_nil {k j : ℕ} (h : WriteInv cfg k j st)
    (htodo : (st.procs .client).todo = []) :
    6 ≤ k :=
  List.drop_eq_nil_iff.mp (h.client.symm.trans htodo)

/-- A client without a call left has posted both of its requests. -/
theorem WriteInv.posted_of_client_nil {k j : ℕ} (h : WriteInv cfg k j st)
    (htodo : (st.procs .client).todo = []) : (st.conn.ends .client).posted.length = 2 := by
  have hk := h.le_of_client_nil htodo
  rw [h.posted, postedAfter, if_neg (by omega), if_neg (by omega)]
  rfl

/-- **What is on its way finds what it needs**, where the server has posted its receive. -/
theorem WriteLive.fits (h : WriteLive cfg st) (hsize : 1 ≤ cfg.size .client) (hfits : cfg.TextFits)
    (hfresh : (st.procs .server).todo ≠ [.postRecv ⟨2, .notifyBuf, notifySize⟩, .pollCompletion])
    (hlast : (st.conn.ends .client).acked + 1 = (st.conn.ends .client).posted.length) :
    ∀ m ∈ st.conn.wire .client, st.conn.Fits .client m := by
  obtain ⟨k, j, hi⟩ := h.inv
  have hcount := h.ordered.counted .client
  have hacked := hcount.acked_le (h.sound.error .client)
  have hwire := hcount.wire_eq
  have hsent := hcount.sent_le
  intro m hm
  obtain ⟨rest, hw⟩ : ∃ rest, st.conn.wire .client = m :: rest := by
    -- the client waits for this request: nothing else is on its way
    obtain ⟨m', hm'⟩ : ∃ m', st.conn.wire .client = [m'] := by
      have hpos := List.length_pos_of_mem hm
      exact List.length_eq_one_iff.mp (by omega)
    rw [hm', List.mem_singleton] at hm
    exact ⟨[], hm ▸ hm'⟩
  rcases hi.wire_cases hw with ⟨hexec, rfl⟩ | ⟨hexec, rfl⟩
  · have hregion := hi.region
    rw [hexec] at hregion
    change 0 + cfg.written.length ≤ ((st.conn.ends .server).mem .dataBuf).length
    rw [hregion, length_region_zero, cfg.length_written hsize, Nat.zero_add]
    exact hfits
  · have hrq : (st.conn.ends .server).rq = [⟨2, .notifyBuf, notifySize⟩] := by
      have htwo : (st.conn.ends .server).executed ≠ 2 := by omega
      cases h.server with
      | fresh htodo => exact absurd htodo hfresh
      | listening _ hrq _ => exact hrq
      | heard _ hcq =>
        obtain ⟨wc, hwc⟩ := List.exists_mem_of_ne_nil _ hcq
        exact absurd (hi.cq wc hwc (h.sound.truthful .server (h.sound.error .server) wc hwc)) htwo
      | finished htodo => exact absurd (hi.polled (hi.le_of_server_nil htodo)) htwo
    have hlen : notification.length = notifySize := length_strncpy
    exact ⟨_, [], hrq, hlen.le⟩

/-- **A client with calls left can go on**, or its devices can, once the server has posted its
receive. -/
theorem WriteLive.advances_client (h : WriteLive cfg st) (hsize : 1 ≤ cfg.size .client)
    (hfits : cfg.TextFits)
    (hfresh : (st.procs .server).todo ≠ [.postRecv ⟨2, .notifyBuf, notifySize⟩, .pollCompletion])
    {c : OsCall OsBuf} {rest : List (OsCall OsBuf)} (htodo : (st.procs .client).todo = c :: rest) :
    st.Advances := by
  have hlive := h.sound.live .client
  have hpoll : c = .pollCompletion → st.Advances := by
    rintro rfl
    cases h.ordered.client hlive with
    | idle hcareful => exact (htodo ▸ hcareful).elim
    | waiting wr rest' _ _ _ hlast =>
      obtain ⟨ev, conn, hok, hnext, hlt, -⟩ :=
        MsgConn.exists_next (h.ordered.counted .client) h.sound.error
        (by omega) (h.fits hsize hfits hfresh hlast)
      refine ⟨.device .client ev, { st with conn := conn }, hok, ?_, Nat.add_lt_add_left hlt _⟩
      simp only [OsState.next, hnext, Option.map_some]
    | completed wc rest' _ _ _ hcq => exact h.sound.advances_poll htodo (hcq ▸ List.cons_ne_nil _ _)
  obtain ⟨k, j, hi⟩ := h.inv
  obtain ⟨hcall, -⟩ := hi.client_call htodo
  cases hcall with
  | text | notify => exact OsState.advances_store hlive htodo
  | write | send => exact OsState.advances_postSend hlive htodo
  | pollWrite | pollSend => exact hpoll rfl

/-- **Something can be done** until both processes are at their cleanups. -/
theorem WriteLive.advances (h : WriteLive cfg st) (hsize : 1 ≤ cfg.size .client)
    (hfits : cfg.TextFits) (hgoal : ¬∀ s, (st.procs s).AtCleanup) : st.Advances := by
  by_cases hfresh : (st.procs .server).todo = [.postRecv ⟨2, .notifyBuf, notifySize⟩,
    .pollCompletion]
  · exact OsState.advances_postRecv (h.sound.live .server) hfresh
  rcases hclient : (st.procs .client).todo with _ | ⟨c, rest⟩
  · cases h.server with
    | fresh htodo => exact absurd htodo hfresh
    | listening _ _ hexec =>
      -- a client at its cleanup has seen both of its requests executed
      obtain ⟨k, j, hi⟩ := h.inv
      have hposted := hi.posted_of_client_nil hclient
      have hacked := (h.ordered.counted .client).acked_le (h.sound.error .client)
      change _ ≤ (st.conn.ends .server).executed at hacked
      cases h.ordered.client (h.sound.live .client) with
      | idle _ hall => omega
      | waiting _ _ htodo | completed _ _ htodo => exact absurd (hclient.symm.trans htodo) (by simp)
    | heard htodo hcq => exact h.sound.advances_poll htodo hcq
    | finished htodo =>
      refine absurd (fun s => ?_) hgoal
      cases s with
      | client => exact ⟨hclient, h.sound.live .client⟩
      | server => exact ⟨htodo, h.sound.live .server⟩
  · exact h.advances_client hsize hfits hfresh hclient

/-- **Where the text does not fit, the Write is never carried out.** -/
theorem executed_zero (hsize : 1 ≤ cfg.size .client) (hfits : ¬cfg.TextFits)
    (h : (writeLts cfg).Reach Lts.any st) : (st.conn.ends .server).executed = 0 := by
  refine h.invariant_of (I := fun st => (st.conn.ends .server).executed = 0)
    (J := fun st => st.Ordered ∧ ∃ k j, WriteInv cfg k j st) (fun a ha => ?_) ?_ ?_
  · exact ⟨OsState.ordered_of_reach (careful_writeScript cfg) (waiting_writeScript cfg) ha,
      WriteInv.of_reach ha⟩
  · rintro _ rfl
    rfl
  · rintro a l b ⟨ho, k, j, hi⟩ hzero _ hs
    rcases OsState.next_move hs with ⟨s, -, hm⟩ | ⟨s, conn, rfl, hm⟩
    · have hsame : (b.conn.ends .server).executed = (a.conn.ends .server).executed := by
        cases s <;> cases hm <;> rfl
      exact hsame.trans hzero
    · cases s with
      | server =>
        obtain ⟨wr, rest, status, -, -, rfl⟩ := ho.server_device_eq hm
        exact hzero
      | client =>
        rcases hm with hm | hm
        · cases hm with
          | send | complete | tooLong => exact hzero
          | write raddr off data rest hwire hle =>
            rcases hi.wire_cases hwire with ⟨-, hm⟩ | ⟨hone, -⟩
            · obtain ⟨rfl, rfl, rfl⟩ := Msg.write.inj hm
              refine absurd ?_ hfits
              have hregion := hi.region
              rw [hzero] at hregion
              change 0 + cfg.written.length ≤ ((a.conn.ends .server).mem .dataBuf).length at hle
              rwa [hregion, length_region_zero, cfg.length_written hsize, Nat.zero_add] at hle
            · exact absurd (hzero.symm.trans hone) (by decide)
          | receive data rest wr rq hwire =>
            rcases hi.wire_cases hwire with ⟨-, hm⟩ | ⟨hone, -⟩
            · cases hm
            · exact absurd (hzero.symm.trans hone) (by decide)
          | read addr length raddr off data rest hwire =>
            rcases hi.wire_cases hwire with ⟨-, hm⟩ | ⟨-, hm⟩
            all_goals cases hm
        · cases hm <;> exact hzero

end Fits

/-- **rdma_write comes to its end if and only if the text fits**: where it does, every run in which
nothing has failed can go on, without a failure, until both processes are at their cleanups; where
it does not, neither of them is at its cleanup in any run, whatever fails. -/
theorem write_finishes (cfg : OsCfg) (hsize : 1 ≤ cfg.size .client) :
    (cfg.TextFits → ∀ st, (writeLts cfg).Reach OsNoFailure st →
      ∃ st', (writeLts cfg).Path OsNoFailure st st' ∧ ∀ s, (st'.procs s).AtCleanup) ∧
    (¬cfg.TextFits → ∀ st, (writeLts cfg).Reach Lts.any st → ∀ s, ¬(st.procs s).AtCleanup) := by
  constructor
  · intro hfits st h
    obtain ⟨st', hpath, -, hgoal⟩ :
      ∃ st', (writeLts cfg).Path OsNoFailure st st' ∧ WriteLive cfg st' ∧
        ∀ s, (st'.procs s).AtCleanup := by
      refine Lts.Path.exists_goal OsState.left (fun a ha hgoal => ?_) (WriteLive.of_reach h)
      obtain ⟨l, b, hok, hs, hlt⟩ := ha.advances hsize hfits hgoal
      exact ⟨l, b, hok, hs, ha.next hok hs, hlt⟩
    exact ⟨st', hpath, hgoal⟩
  · rintro hfits st h s ⟨htodo, hlive⟩
    have hzero := executed_zero hsize hfits h
    obtain ⟨k, j, hi⟩ := WriteInv.of_reach h
    have ho := OsState.ordered_of_reach (careful_writeScript cfg) (waiting_writeScript cfg) h
    cases s with
    | server =>
      have htwo := hi.polled (hi.le_of_server_nil htodo)
      omega
    | client =>
      have hposted := hi.posted_of_client_nil htodo
      cases ho.client hlive with
      | idle _ hall _ herr =>
        have hacked := (ho.counted .client).acked_le herr
        change _ ≤ (st.conn.ends .server).executed at hacked
        omega
      | waiting _ _ h' | completed _ _ h' => exact absurd (htodo.symm.trans h') (by simp)

theorem write_finishes_small : ∃ st', (writeLts writeSmall).Path OsNoFailure
    (osStart (writeScript writeSmall) writeSmall.mem) st' ∧ ∀ s, (st'.procs s).AtCleanup :=
  (write_finishes writeSmall (by decide)).1 (by decide +kernel) _ (Lts.Reach.of_init rfl)

end RdmaBook
