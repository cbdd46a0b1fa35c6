import RdmaBook.OneSided.Program

/-!
# One-sided operations and the region of the server

The CPU of the server sees none of the operations on its region, so the programs have to
see to it that all of them are over when the server tears it down. They do it by the
order of their calls (`RdmaBook.CarefulClient`): the client waits for each of its requests
before it makes the next, and makes no one-sided operation behind its Send; the server
waits for a completion, and only the Send of the client can make it one.

So a Send says that every one-sided operation is over (`RdmaBook.OsState.Quiet`), and the
server at its cleanup has heard of it – whatever has failed before, at either side
(`RdmaBook.one_sided_lifetime`).
-/

namespace RdmaBook

variable {ρ : Type*}

/-! ### Scripts that are careful -/

/-- The operation works on the memory of the peer. -/
def RcOp.OneSided (op : RcOp ρ) : Prop := op ≠ .send

/-- The request on its way works on the memory of the peer. -/
def Msg.OneSided : Msg ρ → Prop
  | .send _ => False
  | _ => True

/-- The call posts a request. -/
def OsCall.Posts : OsCall ρ → Prop
  | .postSend _ _ _ _ => True
  | _ => False

/-- The call posts a one-sided operation. -/
def OsCall.OneSided : OsCall ρ → Prop
  | .postSend _ op _ _ => op.OneSided
  | _ => False

/-- **The order of the calls of the client**: each request is waited for, and no one-sided
operation is posted behind a Send. -/
def CarefulClient : List (OsCall ρ) → Prop
  | [] => True
  | .store _ _ :: rest => CarefulClient rest
  | .check :: rest => CarefulClient rest
  | .postSend _ op _ _ :: .pollCompletion :: rest =>
    (op = .send → ∀ c ∈ rest, ¬c.OneSided) ∧ CarefulClient rest
  | _ => False

/-- A careful client waits for what it posts. -/
theorem CarefulClient.of_postSend {wrId : ℕ} {op : RcOp ρ} {addr : ρ}
    {length : (ρ → List UInt8) → ℕ}
    {rest : List (OsCall ρ)} (h : CarefulClient (.postSend wrId op addr length :: rest)) :
    ∃ rest', rest = .pollCompletion :: rest' ∧ (op = .send → ∀ c ∈ rest', ¬c.OneSided) ∧
      CarefulClient rest' := by
  cases rest with
  | nil => exact h.elim
  | cons c rest => cases c with
    | pollCompletion => exact ⟨rest, rfl, h⟩
    | store | check | postSend | postRecv => exact h.elim

/-- **The order of the calls of the server**: it posts no request, and waits for a
completion. -/
def WaitingServer (script : List (OsCall ρ)) : Prop :=
  (∀ c ∈ script, ¬c.Posts) ∧ OsCall.pollCompletion ∈ script

/-! ### What a process does -/

/-- **The moves of a process.** -/
inductive OsMove [DecidableEq ρ] (st : OsState ρ) (s : Side) : OsState ρ → Prop
  | store (addr : ρ) (bytes : (ρ → List UInt8) → List UInt8) (rest : List (OsCall ρ))
      (htodo : (st.procs s).todo = .store addr bytes :: rest) :
      OsMove st s (st.advance s rest
        (st.conn.set s ((st.conn.ends s).store addr (bytes (st.conn.ends s).mem))))
  | check (rest : List (OsCall ρ)) (htodo : (st.procs s).todo = .check :: rest) :
      OsMove st s (st.advance s rest st.conn)
  | postSend (wrId : ℕ) (op : RcOp ρ) (addr : ρ) (length : (ρ → List UInt8) → ℕ)
      (rest : List (OsCall ρ)) (htodo : (st.procs s).todo = .postSend wrId op addr length :: rest) :
      OsMove st s (st.advance s rest (st.conn.set s
        ((st.conn.ends s).postSend ⟨⟨wrId, addr, length (st.conn.ends s).mem⟩, op⟩)))
  | postRecv (wr : RcWr ρ) (rest : List (OsCall ρ))
      (htodo : (st.procs s).todo = .postRecv wr :: rest) :
      OsMove st s (st.advance s rest (st.conn.set s ((st.conn.ends s).postRecv wr)))
  | wait : OsMove st s st
  | polled (wc : MsgWc) (cq : List MsgWc) (rest : List (OsCall ρ))
      (htodo : (st.procs s).todo = .pollCompletion :: rest) (hcq : (st.conn.ends s).cq = wc :: cq)
      (hwc : wc.status = .success) :
      OsMove st s (st.advance s rest (st.conn.set s { st.conn.ends s with cq := cq }))
  /-- A check fails. -/
  | exit : OsMove st s (st.exit s st.conn)
  /-- A completion tells of a failure. -/
  | exitPolled (wc : MsgWc) (cq : List MsgWc) (hcq : (st.conn.ends s).cq = wc :: cq) :
      OsMove st s (st.exit s (st.conn.set s { st.conn.ends s with cq := cq }))

section Moves

variable [DecidableEq ρ] {st st' : OsState ρ} {s : Side} {l : OsLabel}

theorem OsState.poll_move {rest : List (OsCall ρ)} {status : WcStatus} {ret : PollRet}
    (htodo : (st.procs s).todo = .pollCompletion :: rest)
    (hs : st.poll s rest status ret = some st') :
    OsMove st s st' := by
  cases ret with
  | failed => exact Option.some.inj hs ▸ .exit
  | empty => exact Option.some.inj hs ▸ .wait
  | one =>
    simp only [OsState.poll] at hs
    split at hs
    · cases hs
    · rename_i wc cq hcq
      split at hs
      · rename_i hstatus
        obtain rfl := Option.some.inj hs
        split
        · rename_i hok
          exact .polled wc cq rest htodo hcq (hstatus.trans hok)
        · exact .exitPolled wc cq hcq
      · cases hs

/-- **Every step of a process is one of the moves**, and made by a process that has not
exited. -/
theorem OsState.proc_move (hs : st.procNext s l = some st') :
    (st.procs s).exited = false ∧ OsMove st s st' := by
  simp only [OsState.procNext] at hs
  split at hs
  · cases hs
  · rename_i hlive
    refine ⟨Bool.eq_false_iff.mpr hlive, ?_⟩
    split at hs
    · rename_i htodo
      exact Option.some.inj hs ▸ .store _ _ _ htodo
    · rename_i ok htodo
      cases ok
      · exact Option.some.inj hs ▸ .exit
      · exact Option.some.inj hs ▸ .check _ htodo
    · rename_i ok htodo
      cases ok
      · exact Option.some.inj hs ▸ .exit
      · exact Option.some.inj hs ▸ .postSend _ _ _ _ _ htodo
    · rename_i ok htodo
      cases ok
      · exact Option.some.inj hs ▸ .exit
      · exact Option.some.inj hs ▸ .postRecv _ _ htodo
    · rename_i htodo
      exact OsState.poll_move htodo hs
    · cases hs

/-- **Every step is one of a process or one of a device.** -/
theorem OsState.next_move (hs : st.next l = some st') :
    (∃ s, (st.procs s).exited = false ∧ OsMove st s st') ∨
      ∃ s conn, st' = { st with conn := conn } ∧
      (MsgMove st.conn s conn ∨ MsgFail st.conn s conn) := by
  cases l with
  | store s => exact Or.inl ⟨s, OsState.proc_move hs⟩
  | call s ok => exact Or.inl ⟨s, OsState.proc_move hs⟩
  | poll s ret status => exact Or.inl ⟨s, OsState.proc_move hs⟩
  | device s ev =>
    obtain ⟨conn, hconn, rfl⟩ := Option.map_eq_some_iff.mp hs
    refine Or.inr ⟨s, conn, rfl, ?_⟩
    by_cases hok : ev.Ok
    · exact Or.inl (MsgConn.next_move hok hconn)
    · exact Or.inr (MsgConn.next_fail hok hconn)

end Moves

/-! ### The client -/

/-- **What a client keeps that has not exited**: all its requests have completed and been
polled, or it waits for the last one. -/
inductive OsClient (todo : List (OsCall ρ)) (e : MsgEnd ρ) : Prop
  | idle (hcareful : CarefulClient todo) (hacked : e.acked = e.posted.length) (hcq : e.cq = [])
      (herr : e.error = false)
  | waiting (wr : MsgWr ρ) (rest : List (OsCall ρ)) (htodo : todo = .pollCompletion :: rest)
      (hcareful : CarefulClient rest) (hlast : e.posted[e.acked]? = some wr)
      (hacked : e.acked + 1 = e.posted.length) (hcq : e.cq = []) (herr : e.error = false)
  | completed (wc : MsgWc) (rest : List (OsCall ρ)) (htodo : todo = .pollCompletion :: rest)
      (hcareful : CarefulClient rest) (hacked : e.acked = e.posted.length) (hcq : e.cq = [wc])
      (herr : wc.status = .success → e.error = false)

namespace OsState

/-- A Send of the client has been posted. -/
def Told (st : OsState ρ) : Prop := ∃ wr ∈ (st.conn.ends .client).posted, wr.op = .send

/-- **The one-sided operations are over**: none is on its way, none of those posted is
outstanding, and the client posts no other. -/
structure Quiet (st : OsState ρ) : Prop where
  wire : ∀ m ∈ st.conn.wire .client, ¬m.OneSided
  posted : ∀ j wr, (st.conn.ends .client).posted[j]? = some wr → wr.op.OneSided →
    j < (st.conn.ends .client).acked
  todo : ∀ c ∈ (st.procs .client).todo, ¬c.OneSided

/-- **The invariant of the two scripts.** -/
structure Ordered (st : OsState ρ) : Prop where
  counted : ∀ s, st.conn.Counted s
  client : (st.procs .client).exited = false →
    OsClient (st.procs .client).todo (st.conn.ends .client)
  rq : (st.conn.ends .client).rq = []
  posted : (st.conn.ends .server).posted = []
  server : ∀ c ∈ (st.procs .server).todo, ¬c.Posts
  quiet : st.Told → st.Quiet
  wire : ∀ data, .send data ∈ st.conn.wire .client → st.Told
  cq : ∀ wc ∈ (st.conn.ends .server).cq, wc.status = .success → st.Told
  polled : .pollCompletion ∈ (st.procs .server).todo ∨ st.Told

end OsState

namespace OsState.Ordered

variable {st st' : OsState ρ}

theorem start {script : Side → List (OsCall ρ)} {mem : Side → ρ → List UInt8}
    (hc : CarefulClient (script .client)) (hw : WaitingServer (script .server)) :
    (osStart script mem).Ordered where
  counted := fun _ => MsgConn.Counted.start mem
  client := fun _ => .idle hc rfl rfl rfl
  rq := rfl
  posted := rfl
  server := hw.1
  quiet := fun ⟨_, hwr, _⟩ => absurd hwr List.not_mem_nil
  wire := nofun
  cq := nofun
  polled := Or.inl hw.2

/-- A client that waits for nothing has nothing on its way. -/
theorem wire_nil (h : st.Ordered)
    (hacked : (st.conn.ends .client).acked = (st.conn.ends .client).posted.length)
    (herr : (st.conn.ends .client).error = false) : st.conn.wire .client = [] := by
  have hc := h.counted .client
  have hle := hc.acked_le herr
  have hwire := hc.wire_eq
  have hsent := hc.sent_le
  exact List.length_eq_zero_iff.mp (by omega)

/-- A step that leaves the client and what it has on its way alone. -/
theorem of_server (h : st.Ordered) (hproc : st'.procs .client = st.procs .client)
    (hend : st'.conn.ends .client = st.conn.ends .client)
    (hwire : st'.conn.wire .client = st.conn.wire .client) (hcounted : ∀ s, st'.conn.Counted s)
    (hposted : (st'.conn.ends .server).posted = [])
    (hserver : ∀ c ∈ (st'.procs .server).todo, ¬c.Posts)
    (hcq : ∀ wc ∈ (st'.conn.ends .server).cq, wc.status = .success → st.Told)
    (hpolled : .pollCompletion ∈ (st'.procs .server).todo ∨ st.Told) : st'.Ordered := by
  have htold : st'.Told ↔ st.Told := by
    rw [Told, Told, hend]
  refine ⟨hcounted, ?_, ?_, hposted, hserver, ?_, ?_, ?_, ?_⟩
  · rw [hproc, hend]
    exact h.client
  · rw [hend]
    exact h.rq
  · intro ht
    obtain ⟨hw, hp, htodo⟩ := h.quiet (htold.mp ht)
    exact ⟨hwire ▸ hw, hend ▸ hp, hproc ▸ htodo⟩
  · rw [hwire, htold]
    exact h.wire
  · rw [htold]
    exact hcq
  · rw [htold]
    exact hpolled

section Server

variable {c : OsCall ρ} {rest : List (OsCall ρ)}

theorem server_tail (h : st.Ordered) (htodo : (st.procs .server).todo = c :: rest) :
    ∀ d ∈ rest, ¬d.Posts :=
  fun d hd => h.server d (htodo ▸ List.mem_cons_of_mem _ hd)

theorem polled_tail (h : st.Ordered) (htodo : (st.procs .server).todo = c :: rest)
    (hc : .pollCompletion ≠ c) : .pollCompletion ∈ rest ∨ st.Told := by
  have hpolled := h.polled
  rw [htodo] at hpolled
  exact hpolled.imp_left fun hmem => (List.mem_cons.mp hmem).resolve_left hc

end Server

/-- A move of the process of the server. -/
theorem server_move [DecidableEq ρ] (h : st.Ordered) (hm : OsMove st .server st') :
    st'.Ordered := by
  have hset : ∀ {e : MsgEnd ρ}, e.sent = (st.conn.ends .server).sent →
      e.acked = (st.conn.ends .server).acked → e.executed = (st.conn.ends .server).executed →
      e.error = (st.conn.ends .server).error → e.posted = (st.conn.ends .server).posted →
      ∀ s, (st.conn.set .server e).Counted s := fun hs ha he hr hp =>
    MsgConn.Counted.set h.counted hs ha he hr (congrArg List.length hp).ge
  cases hm with
  | store addr bytes rest htodo =>
    exact h.of_server rfl rfl rfl (hset rfl rfl rfl rfl rfl) h.posted (h.server_tail htodo) h.cq
      (h.polled_tail htodo nofun)
  | check rest htodo =>
    exact h.of_server rfl rfl rfl h.counted h.posted (h.server_tail htodo) h.cq
      (h.polled_tail htodo nofun)
  | postSend wrId op addr length rest htodo =>
    have hno := h.server _ (htodo ▸ List.mem_cons_self)
    exact (hno trivial).elim
  | postRecv wr rest htodo =>
    exact h.of_server rfl rfl rfl (hset rfl rfl rfl rfl rfl) h.posted (h.server_tail htodo) h.cq
      (h.polled_tail htodo nofun)
  | wait => exact h
  | polled wc cq rest htodo hcq hwc =>
    -- only the Send of the client can have made this completion a success
    have htold : st.Told := h.cq wc (hcq ▸ List.mem_cons_self) hwc
    exact h.of_server rfl rfl rfl (hset rfl rfl rfl rfl rfl) h.posted (h.server_tail htodo)
      (fun _ _ _ => htold) (Or.inr htold)
  | exit => exact h.of_server rfl rfl rfl h.counted h.posted h.server h.cq h.polled
  | exitPolled wc cq hcq =>
    refine h.of_server rfl rfl rfl (hset rfl rfl rfl rfl rfl) h.posted h.server ?_ h.polled
    exact fun wc' hwc' => h.cq wc' (hcq ▸ List.mem_cons_of_mem _ hwc')

/-- A step that leaves the server and what is on its way alone, and posts nothing. -/
theorem of_client (h : st.Ordered) (hproc : st'.procs .server = st.procs .server)
    (hend : st'.conn.ends .server = st.conn.ends .server)
    (hwire : st'.conn.wire .client = st.conn.wire .client) (hcounted : ∀ s, st'.conn.Counted s)
    (hclient : (st'.procs .client).exited = false →
      OsClient (st'.procs .client).todo (st'.conn.ends .client))
    (hrq : (st'.conn.ends .client).rq = [])
    (hposted : (st'.conn.ends .client).posted = (st.conn.ends .client).posted)
    (hacked : (st.conn.ends .client).acked ≤ (st'.conn.ends .client).acked)
    (htodo : ∀ c ∈ (st'.procs .client).todo, c ∈ (st.procs .client).todo) : st'.Ordered := by
  have htold : st'.Told ↔ st.Told := by
    rw [Told, Told, hposted]
  refine ⟨hcounted, hclient, hrq, ?_, ?_, ?_, ?_, ?_, ?_⟩
  · rw [hend]
    exact h.posted
  · rw [hproc]
    exact h.server
  · intro ht
    obtain ⟨hw, hp, hq⟩ := h.quiet (htold.mp ht)
    refine ⟨hwire ▸ hw, fun j wr hwr hone => ?_, fun c hc => hq c (htodo c hc)⟩
    exact (hp j wr (hposted ▸ hwr) hone).trans_le hacked
  · rw [hwire, htold]
    exact h.wire
  · rw [hend, htold]
    exact h.cq
  · rw [hproc, htold]
    exact h.polled

/-- **A client at a call other than `poll_completion`** waits for nothing. -/
theorem idle (h : st.Ordered) (hlive : (st.procs .client).exited = false) {c : OsCall ρ}
    {rest : List (OsCall ρ)} (htodo : (st.procs .client).todo = c :: rest)
    (hc : c ≠ .pollCompletion) :
    CarefulClient (c :: rest) ∧ (st.conn.ends .client).acked =
      (st.conn.ends .client).posted.length ∧
      (st.conn.ends .client).cq = [] ∧ (st.conn.ends .client).error = false := by
  cases h.client hlive with
  | idle hcareful hacked hcq herr => exact ⟨htodo ▸ hcareful, hacked, hcq, herr⟩
  | waiting wr rest' htodo' => exact absurd (List.cons.inj (htodo.symm.trans htodo')).1 hc
  | completed wc rest' htodo' => exact absurd (List.cons.inj (htodo.symm.trans htodo')).1 hc

/-- **The client posts a request.** -/
theorem client_postSend (h : st.Ordered) (hlive : (st.procs .client).exited = false) {wrId : ℕ}
    {op : RcOp ρ} {addr : ρ} {length : (ρ → List UInt8) → ℕ} {rest : List (OsCall ρ)} {wr : MsgWr ρ}
    (htodo : (st.procs .client).todo = .postSend wrId op addr length :: rest) (hop : wr.op = op) :
    (st.advance .client rest (st.conn.set .client
      ((st.conn.ends .client).postSend wr))).Ordered := by
  obtain ⟨hcareful, hacked, hcq, herr⟩ := h.idle hlive htodo nofun
  obtain ⟨rest', rfl, hsend, hcareful'⟩ := hcareful.of_postSend
  have htold : ∀ {p : Prop}, (p → st.Told) → p →
      ∃ wr' ∈ (st.conn.ends .client).posted ++ [wr], wr'.op = .send := by
    intro p hp hcond
    obtain ⟨wr', hwr', hsend'⟩ := hp hcond
    exact ⟨wr', List.mem_append_left _ hwr', hsend'⟩
  refine ⟨?_, fun _ => ?_, h.rq, h.posted, h.server, ?_, fun data => htold (h.wire data),
    fun wc hwc => htold (h.cq wc hwc), ?_⟩
  · refine MsgConn.Counted.set h.counted rfl rfl rfl rfl ?_
    exact (List.length_append ▸ Nat.le_add_right _ _ :)
  · refine .waiting wr rest' rfl hcareful' ?_ ?_ hcq herr
    · change ((st.conn.ends .client).posted ++ [wr])[(st.conn.ends .client).acked]? = some wr
      rw [hacked, List.getElem?_concat_length]
    · change _ = ((st.conn.ends .client).posted ++ [wr]).length
      rw [List.length_append, List.length_singleton]
      exact congrArg (· + 1) hacked
  · rintro ⟨wr', hwr', hop'⟩
    have hcase : op = .send := by
      rcases List.mem_append.mp hwr' with hold | hnew
      · -- behind a Send there is no one-sided operation
        by_contra hne
        have hno := (h.quiet ⟨wr', hold, hop'⟩).todo _ (htodo ▸ List.mem_cons_self)
        exact hno hne
      · rw [← hop, ← List.mem_singleton.mp hnew]
        exact hop'
    refine ⟨?_, ?_, ?_⟩
    · change ∀ m ∈ st.conn.wire .client, ¬m.OneSided
      rw [h.wire_nil hacked herr]
      exact nofun
    · intro j wr₁ hwr₁ hone
      change ((st.conn.ends .client).posted ++ [wr])[j]? = some wr₁ at hwr₁
      change j < (st.conn.ends .client).acked
      rw [List.getElem?_append] at hwr₁
      split at hwr₁
      · rwa [hacked]
      · obtain ⟨hlt, heq⟩ := List.getElem?_eq_some_iff.mp hwr₁
        rw [List.getElem_singleton] at heq
        exact absurd (heq ▸ hop.trans hcase) hone
    · intro c hc
      rcases List.mem_cons.mp hc with rfl | hc
      · exact id
      · exact hsend hcase c hc
  · exact h.polled.imp_right fun ht => htold id ht

/-- A move of the process of the client. -/
theorem client_move [DecidableEq ρ] (h : st.Ordered) (hlive : (st.procs .client).exited = false)
    (hm : OsMove st .client st') : st'.Ordered := by
  have hset : ∀ {e : MsgEnd ρ}, e.sent = (st.conn.ends .client).sent →
      e.acked = (st.conn.ends .client).acked → e.executed = (st.conn.ends .client).executed →
      e.error = (st.conn.ends .client).error → e.posted = (st.conn.ends .client).posted →
      ∀ s, (st.conn.set .client e).Counted s := fun hs ha he hr hp =>
    MsgConn.Counted.set h.counted hs ha he hr (congrArg List.length hp).ge
  cases hm with
  | store addr bytes rest htodo =>
    obtain ⟨hcareful, hacked, hcq, herr⟩ := h.idle hlive htodo nofun
    exact h.of_client rfl rfl rfl (hset rfl rfl rfl rfl rfl)
      (fun _ => .idle hcareful hacked hcq herr)
      h.rq rfl le_rfl (fun c hc => htodo ▸ List.mem_cons_of_mem _ hc)
  | check rest htodo =>
    obtain ⟨hcareful, hacked, hcq, herr⟩ := h.idle hlive htodo nofun
    exact h.of_client rfl rfl rfl h.counted (fun _ => .idle hcareful hacked hcq herr)
      h.rq rfl le_rfl (fun c hc => htodo ▸ List.mem_cons_of_mem _ hc)
  | postSend wrId op addr length rest htodo => exact h.client_postSend hlive htodo rfl
  | postRecv wr rest htodo => exact (h.idle hlive htodo nofun).1.elim
  | wait => exact h
  | polled wc cq rest htodo hcq hwc =>
    cases h.client hlive with
    | idle hcareful => exact (htodo ▸ hcareful : CarefulClient (.pollCompletion :: rest)).elim
    | waiting _ _ _ _ _ _ hcq' => exact absurd (hcq.symm.trans hcq') (List.cons_ne_nil _ _)
    | completed wc' rest' htodo' hcareful hacked hcq' herr =>
      obtain ⟨rfl, rfl⟩ := List.cons.inj (hcq.symm.trans hcq')
      obtain ⟨-, rfl⟩ := List.cons.inj (htodo.symm.trans htodo')
      exact h.of_client rfl rfl rfl (hset rfl rfl rfl rfl rfl)
        (fun _ => .idle hcareful hacked rfl (herr hwc)) h.rq rfl le_rfl
        (fun c hc => htodo ▸ List.mem_cons_of_mem _ hc)
  | exit => exact h.of_client rfl rfl rfl h.counted nofun h.rq rfl le_rfl (fun _ => id)
  | exitPolled wc cq hcq =>
    exact h.of_client rfl rfl rfl (hset rfl rfl rfl rfl rfl) nofun h.rq rfl le_rfl (fun _ => id)

/-- **The device of the client completes a request.** -/
theorem client_complete (h : st.Ordered) {wr : MsgWr ρ} {status : WcStatus} {e : MsgEnd ρ}
    (hwr : (st.conn.ends .client).posted[(st.conn.ends .client).acked]? = some wr)
    (he : e = { (st.conn.ends .client).complete wr status with error := e.error })
    (herr : status = .success → e.error = false)
    (hcounted : ∀ s, (st.conn.set .client e).Counted s) :
    Ordered { st with conn := st.conn.set .client e } := by
  have hlt := (List.getElem?_eq_some_iff.mp hwr).1
  have hposted : e.posted = (st.conn.ends .client).posted := by rw [he]; rfl
  have hacked : e.acked = (st.conn.ends .client).acked + 1 := by rw [he]; rfl
  have hrq : e.rq = (st.conn.ends .client).rq := by rw [he]; rfl
  have hcq : e.cq = (st.conn.ends .client).cq ++
      [⟨wr.wrId, status, some wr.op.opcode, wr.length⟩] := by
    rw [he]
    rfl
  refine h.of_client rfl rfl rfl hcounted (fun hlive => ?_) (hrq.trans h.rq) hposted
    (hacked ▸ Nat.le_succ _) (fun _ => id)
  cases h.client hlive with
  | idle _ hall => exact absurd hall hlt.ne
  | waiting wr' rest htodo hcareful hlast hall hnone =>
    refine .completed _ rest htodo hcareful ?_ (by rw [hnone] at hcq; exact hcq) herr
    change e.acked = e.posted.length
    rw [hacked, hposted, hall]
  | completed wc rest htodo hcareful hall => exact absurd hall hlt.ne

/-- **The device of the server executes a request of the client.** -/
theorem client_execute (h : st.Ordered) {m : Msg ρ} {rest : List (Msg ρ)} {conn : MsgConn ρ}
    (hwire : st.conn.wire .client = m :: rest)
    (hwire' : ∀ m' ∈ conn.wire .client, m' ∈ st.conn.wire .client) (hcounted : ∀ s, conn.Counted s)
    (hclient : conn.ends .client = { st.conn.ends .client with mem := (conn.ends .client).mem })
    (hserver : (conn.ends .server).posted = (st.conn.ends .server).posted)
    (hcq : ∀ wc ∈ (conn.ends .server).cq, wc.status = .success →
      wc ∈ (st.conn.ends .server).cq ∨ ∃ data, m = .send data) : Ordered { st with conn :=
        conn } := by
  have hposted : (conn.ends .client).posted = (st.conn.ends .client).posted := by rw [hclient]
  have hacked : (conn.ends .client).acked = (st.conn.ends .client).acked := by rw [hclient]
  have htold : Told { st with conn := conn } ↔ st.Told := by
    rw [Told, Told, hposted]
  refine ⟨hcounted, fun hlive => ?_, ?_, hserver.trans h.posted, h.server, fun ht => ?_, ?_, ?_, ?_⟩
  · change OsClient (st.procs .client).todo (conn.ends .client)
    rw [hclient]
    cases h.client hlive with
    | idle hcareful hall hnone herr => exact .idle hcareful hall hnone herr
    | waiting wr rest htodo hcareful hlast hall hnone herr =>
      exact .waiting wr rest htodo hcareful hlast hall hnone herr
    | completed wc rest htodo hcareful hall hone herr =>
      exact .completed wc rest htodo hcareful hall hone herr
  · change (conn.ends .client).rq = []
    rw [hclient]
    exact h.rq
  · obtain ⟨hw, hp, htodo⟩ := h.quiet (htold.mp ht)
    refine ⟨fun m' hm' => hw m' (hwire' m' hm'), fun j wr hwr hone => ?_, htodo⟩
    change j < (conn.ends .client).acked
    rw [hacked]
    exact hp j wr (hposted ▸ hwr) hone
  · exact fun data hdata => htold.mpr (h.wire data (hwire' _ hdata))
  · intro wc hwc hok
    rcases hcq wc hwc hok with hold | ⟨data, rfl⟩
    · exact htold.mpr (h.cq wc hold hok)
    · exact htold.mpr (h.wire data (hwire ▸ List.mem_cons_self))
  · exact h.polled.imp_right htold.mpr

/-- **The device of the client sends a request**; behind a Send that is no one-sided
one. -/
theorem client_send [DecidableEq ρ] (h : st.Ordered) {wr : MsgWr ρ}
    (hwr : (st.conn.ends .client).posted[(st.conn.ends .client).sent]? = some wr)
    (herr : (st.conn.ends .client).error = false)
    (hcounted : ∀ s, ((st.conn.set .client
      { st.conn.ends .client with sent := (st.conn.ends .client).sent + 1 }).setWire .client
        (st.conn.wire .client ++ [(st.conn.ends .client).message wr])).Counted s) :
    Ordered
      { st with
        conn := (st.conn.set .client
          { st.conn.ends .client with sent := (st.conn.ends .client).sent + 1 }).setWire .client
            (st.conn.wire .client ++ [(st.conn.ends .client).message wr]) } := by
  have hmem := List.mem_of_getElem? hwr
  refine ⟨hcounted, fun hlive => ?_, h.rq, h.posted, h.server, fun ht => ?_, ?_, h.cq, h.polled⟩
  · cases h.client hlive with
    | idle hcareful hall hnone herr => exact .idle hcareful hall hnone herr
    | waiting wr rest htodo hcareful hlast hall hnone herr =>
      exact .waiting wr rest htodo hcareful hlast hall hnone herr
    | completed wc rest htodo hcareful hall hone herr =>
      exact .completed wc rest htodo hcareful hall hone herr
  · obtain ⟨hw, hp, htodo⟩ := h.quiet ht
    refine ⟨fun m hm => ?_, hp, htodo⟩
    rcases List.mem_append.mp hm with hm | hm
    · exact hw m hm
    · have hsend : wr.op = .send := by
        by_contra hone
        have hlt := hp _ wr hwr hone
        have hle := (h.counted .client).acked_le herr
        have hwire := (h.counted .client).wire_eq
        omega
      rw [List.mem_singleton.mp hm, MsgEnd.message, hsend]
      exact id
  · intro data hdata
    rcases List.mem_append.mp hdata with hdata | hdata
    · exact h.wire data hdata
    · refine ⟨wr, hmem, ?_⟩
      have hmsg := List.mem_singleton.mp hdata
      rw [MsgEnd.message] at hmsg
      split at hmsg
      · assumption
      · cases hmsg
      · cases hmsg

/-- A move of the client's device. -/
theorem client_device [DecidableEq ρ] (h : st.Ordered) {conn : MsgConn ρ}
    (hm : MsgMove st.conn .client conn) : Ordered { st with conn := conn } := by
  have hcounted := MsgConn.Counted.moves h.counted hm
  cases hm with
  | send wr hwr herr => exact h.client_send hwr herr hcounted
  | receive data rest wr rq hwire hrq hfits =>
    refine h.client_execute hwire (fun m' hm' => ?_) hcounted rfl rfl fun wc hwc hok => ?_
    · exact hwire ▸ List.mem_cons_of_mem _ hm'
    · exact Or.inr ⟨data, rfl⟩
  | tooLong data rest wr rq hwire hrq hlong =>
    refine h.client_execute hwire (fun _ => id) hcounted rfl rfl fun wc hwc hok =>
      Or.inr ⟨data, rfl⟩
  | write raddr off data rest hwire hfits =>
    refine h.client_execute hwire (fun m' hm' => ?_) hcounted rfl rfl fun wc hwc hok => Or.inl hwc
    exact hwire ▸ List.mem_cons_of_mem _ hm'
  | read addr length raddr off data rest hwire hfits hdata =>
    refine h.client_execute hwire (fun m' hm' => ?_) hcounted rfl rfl fun wc hwc hok => Or.inl hwc
    exact hwire ▸ List.mem_cons_of_mem _ hm'
  | complete wr hwr herr hlt => exact h.client_complete hwr rfl (fun _ => herr) hcounted

/-- The server has nothing on its way: it posts no request. -/
theorem wire_server (h : st.Ordered) : st.conn.wire .server = [] := by
  have hwire := (h.counted .server).wire_eq
  have hsent := (h.counted .server).sent_le
  rw [h.posted, List.length_nil] at hsent
  exact List.length_eq_zero_iff.mp (by omega)

/-- **The device of the server** makes no move but that a receive fails. -/
theorem server_device_eq [DecidableEq ρ] (h : st.Ordered) {conn : MsgConn ρ}
    (hm : MsgMove st.conn .server conn ∨ MsgFail st.conn .server conn) :
    ∃ wr rest status, (st.conn.ends .server).rq = wr :: rest ∧ status ≠ .success ∧
      conn = st.conn.set .server ((st.conn.ends .server).failRecv wr rest status) := by
  have hnone : ∀ (i : ℕ) (wr : MsgWr ρ), (st.conn.ends .server).posted[i]? ≠ some wr := by
    intro i wr hwr
    rw [h.posted] at hwr
    cases hwr
  have hempty : ∀ m rest, st.conn.wire .server ≠ m :: rest := by
    intro m rest hwire
    rw [h.wire_server] at hwire
    cases hwire
  rcases hm with hm | hm
  · cases hm with
    | send wr hwr herr => exact (hnone _ wr hwr).elim
    | receive data rest wr rq hwire hrq hfits => exact (hempty _ rest hwire).elim
    | tooLong data rest wr rq hwire hrq hlong => exact (hempty _ rest hwire).elim
    | write raddr off data rest hwire hfits => exact (hempty _ rest hwire).elim
    | read addr length raddr off data rest hwire hfits hdata => exact (hempty _ rest hwire).elim
    | complete wr hwr herr hlt => exact (hnone _ wr hwr).elim
  · cases hm with
    | fail wr status hwr hstatus => exact (hnone _ wr hwr).elim
    | flush wr rest status hrq hstatus => exact ⟨wr, rest, status, hrq, hstatus, rfl⟩

/-- A move of the device of the server. -/
theorem server_device [DecidableEq ρ] (h : st.Ordered) {conn : MsgConn ρ}
    (hm : MsgMove st.conn .server conn ∨ MsgFail st.conn .server conn) :
    Ordered { st with conn := conn } := by
  obtain ⟨wr, rest, status, hrq, hstatus, rfl⟩ := h.server_device_eq hm
  have hcounted := fun s => MsgConn.Counted.fails h.counted (.flush wr rest status hrq hstatus) s
  refine h.of_server rfl rfl rfl hcounted h.posted h.server (fun wc hwc hok => ?_) h.polled
  rcases List.mem_append.mp hwc with hwc | hwc
  · exact h.cq wc hwc hok
  · rw [List.mem_singleton.mp hwc] at hok
    exact absurd hok hstatus

/-- A request of the client fails. -/
theorem client_fail [DecidableEq ρ] (h : st.Ordered) {conn : MsgConn ρ}
    (hm : MsgFail st.conn .client conn) : Ordered { st with conn := conn } := by
  have hcounted := fun s => MsgConn.Counted.fails h.counted hm s
  cases hm with
  | fail wr status hwr hstatus =>
    exact h.client_complete hwr rfl (fun hok => absurd hok hstatus) hcounted
  | flush wr rest status hrq hstatus =>
    exact absurd (h.rq.symm.trans hrq) (List.cons_ne_nil _ _).symm

/-- **Every step keeps the invariant**, whatever fails. -/
theorem next [DecidableEq ρ] (h : st.Ordered) {l : OsLabel} (hs : st.next l = some st') :
    st'.Ordered := by
  rcases OsState.next_move hs with ⟨s, hlive, hm⟩ | ⟨s, conn, rfl, hm⟩
  · cases s with
    | client => exact h.client_move hlive hm
    | server => exact h.server_move hm
  · cases s with
    | client =>
      rcases hm with hm | hm
      · exact h.client_device hm
      · exact h.client_fail hm
    | server => exact h.server_device hm

end OsState.Ordered

/-! ### The cleanup of the server -/

/-- **At its cleanup the server knows** that the Send of the client has been posted. -/
theorem OsState.Ordered.told_of_cleanup {st : OsState ρ} (h : st.Ordered)
    (hs : (st.procs .server).AtCleanup) : st.Told := by
  refine h.polled.resolve_left ?_
  rw [hs.1]
  exact List.not_mem_nil

/-- The client has told the server, and posts no one-sided operation behind the first `n`
requests. -/
structure OsState.Over (n : ℕ) (st : OsState ρ) : Prop where
  told : st.Told
  posted : ∀ j wr, (st.conn.ends .client).posted[j]? = some wr → wr.op.OneSided → j < n
  todo : ∀ c ∈ (st.procs .client).todo, ¬c.OneSided

/-- What the end of the operations depends on. -/
theorem OsState.Over.congr {n : ℕ} {st st' : OsState ρ} (h : st.Over n)
    (hposted : (st'.conn.ends .client).posted = (st.conn.ends .client).posted)
    (htodo : ∀ c ∈ (st'.procs .client).todo, c ∈ (st.procs .client).todo) : st'.Over n where
  told := by
    rw [Told, hposted]
    exact h.told
  posted := by
    rw [hposted]
    exact h.posted
  todo := fun c hc => h.todo c (htodo c hc)

section Lifetime

variable [DecidableEq ρ] {script : Side → List (OsCall ρ)} {mem : Side → ρ → List UInt8}
  {st st' : OsState ρ}

/-- **The invariant of the two scripts** holds in every run. -/
theorem OsState.ordered_of_reach {ok : OsState ρ → OsLabel → Prop}
    (hc : CarefulClient (script .client))
    (hw : WaitingServer (script .server)) (h : (osLts script mem).Reach ok st) : st.Ordered := by
  refine h.invariant ?_ ?_
  · rintro _ rfl
    exact OsState.Ordered.start hc hw
  · intro st l st' hst _ hs
    exact hst.next hs

/-- A move of the process of the client. -/
theorem OsState.Over.client_move {n : ℕ} (h : st.Over n) (hm : OsMove st .client st') :
    st'.Over n := by
  cases hm with
  | store addr bytes rest htodo | check rest htodo | postRecv wr rest htodo
    | polled wc cq rest htodo hcq hwc =>
    exact h.congr rfl fun c hc => htodo ▸ List.mem_cons_of_mem _ hc
  | wait => exact h
  | exit => exact h.congr rfl fun _ => id
  | exitPolled wc cq hcq => exact h.congr rfl fun _ => id
  | postSend wrId op addr length rest htodo =>
    obtain ⟨wr', hwr', hsend'⟩ := h.told
    refine ⟨⟨wr', List.mem_append_left _ hwr', hsend'⟩, fun j wr hwr hone => ?_, fun c hc => ?_⟩
    · change ((st.conn.ends .client).posted ++ [_])[j]? = some wr at hwr
      rw [List.getElem?_append] at hwr
      split at hwr
      · exact h.posted j wr hwr hone
      · obtain ⟨hlt, rfl⟩ := List.getElem?_eq_some_iff.mp hwr
        rw [List.getElem_singleton] at hone
        have hno := h.todo _ (htodo ▸ List.mem_cons_self)
        exact absurd hone hno
    · exact h.todo c (htodo ▸ List.mem_cons_of_mem _ hc)

/-- **Nothing one-sided is posted later.** -/
theorem OsState.Over.next {n : ℕ} (h : st.Over n) {l : OsLabel} (hs : st.next l = some st') :
    st'.Over n := by
  rcases OsState.next_move hs with ⟨s, hlive, hm⟩ | ⟨s, conn, rfl, hm⟩
  · cases s with
    | client => exact h.client_move hm
    | server =>
      have hsame : st'.conn.ends .client = st.conn.ends .client ∧
          st'.procs .client = st.procs .client := by
        cases hm <;> exact ⟨rfl, rfl⟩
      refine h.congr ?_ fun c hc => ?_
      · rw [hsame.1]
      · rwa [hsame.2] at hc
  · refine h.congr ?_ fun _ => id
    rcases hm with hm | hm
    · exact hm.posted_eq .client
    · exact hm.posted_eq .client

end Lifetime

/-- **One-sided operations do not outlive the region**: from any state on in which the
server is at its cleanup, none is on its way, and all that have been posted by then or
are posted later had completed there. -/
def OneSidedSafe [DecidableEq ρ] (M : Lts (OsState ρ) OsLabel) : Prop :=
  ∀ st st', M.Reach Lts.any st → (st.procs .server).AtCleanup → M.Path Lts.any st st' →
    (∀ m ∈ st'.conn.wire .client, ¬m.OneSided) ∧
      ∀ j wr, (st'.conn.ends .client).posted[j]? = some wr → wr.op.OneSided →
        j < (st.conn.ends .client).acked

/-- **Two careful scripts** are safe. -/
theorem oneSidedSafe_of_careful [DecidableEq ρ] {script : Side → List (OsCall ρ)}
    {mem : Side → ρ → List UInt8} (hc : CarefulClient (script .client))
    (hw : WaitingServer (script .server)) : OneSidedSafe (osLts script mem) := by
  intro st st' hreach hcleanup hpath
  have htold := (OsState.ordered_of_reach hc hw hreach).told_of_cleanup hcleanup
  have hquiet := (OsState.ordered_of_reach hc hw hreach).quiet htold
  have hover : st'.Over (st.conn.ends .client).acked :=
    hpath.invariant ⟨htold, hquiet.posted, hquiet.todo⟩ fun _ _ _ h _ hs => h.next hs
  have hquiet' := (OsState.ordered_of_reach hc hw (hreach.trans hpath)).quiet hover.told
  exact ⟨hquiet'.wire, hover.posted⟩

section Programs

variable (cfg : OsCfg)

theorem careful_writeScript : CarefulClient (writeScript cfg .client) :=
  ⟨nofun, fun _ _ => nofun, trivial⟩

theorem waiting_writeScript : WaitingServer (writeScript cfg .server) := by
  constructor
  · intro c hc
    simp only [writeScript, List.mem_cons, List.not_mem_nil, or_false] at hc
    rcases hc with rfl | rfl <;> exact id
  · exact List.mem_cons_of_mem _ List.mem_cons_self

theorem careful_readScript : CarefulClient (readScript cfg .client) :=
  ⟨nofun, nofun, fun _ _ => nofun, trivial⟩

theorem waiting_readScript : WaitingServer (readScript cfg .server) := by
  constructor
  · intro c hc
    simp only [readScript, List.mem_cons, List.not_mem_nil, or_false] at hc
    rcases hc with rfl | rfl | rfl | rfl | rfl | rfl <;> exact id
  · simp [readScript]

/-- **One-sided access never outlives the region of the server**, in rdma_write and in
rdma_read, whatever fails. -/
theorem one_sided_lifetime : OneSidedSafe (writeLts cfg) ∧ OneSidedSafe (oneSidedReadLts cfg) :=
  ⟨oneSidedSafe_of_careful (careful_writeScript cfg) (waiting_writeScript cfg),
    oneSidedSafe_of_careful (careful_readScript cfg) (waiting_readScript cfg)⟩

end Programs

end RdmaBook
