import Mathlib.Algebra.BigOperators.Group.Finset.Basic
import Mathlib.Algebra.Order.BigOperators.Group.Finset
import RdmaBook.Cm.Contexts
import RdmaBook.Cm.Exchange

/-!
# Every client gets its reply

The server works for one connection at a time, and its handler of ESTABLISHED waits in a loop for
the message of one client. So a client can only be kept from its reply by another one that is
connected and says nothing. In a run without failures, and without the events that end the loop of
the server or of a client (`RdmaBook.CmNetOrderly`), there is no such client: a client whose
connection the server has accepted can always go on and say what it has to say.

A client does the same steps in every such run (`RdmaBook.CmClient.place`), so what is left to do is
counted: the steps of the clients and of the server, and what the devices have not done of the
requests that are posted (`RdmaBook.CmNet.left`). As long as some client below `n` is not at its
end, or the server is in a handler, a step leaves less to do (`RdmaBook.CmNet.Underway.advances`).

The first DISCONNECTED ends all that: the server leaves its loop, and a client that has no reply
then never gets one (`RdmaBook.cm_disconnected`). -/

namespace RdmaBook

/-! ### Orderly runs -/

/-- **The step of the server** fails nothing, and brings no event that ends its loop. -/
def CmLabel.Orderly : CmLabel → Prop
  | .getEvent (some ev) => ev.type = .connectRequest ∨ ev.type = .established
  | l => l.Ok

instance : DecidablePred CmLabel.Orderly
  | .getEvent (some ev) =>
    inferInstanceAs (Decidable (ev.type = .connectRequest ∨ ev.type = .established))
  | .getEvent none => inferInstanceAs (Decidable (CmLabel.Ok (.getEvent none)))
  | .cpu => inferInstanceAs (Decidable (CmLabel.Ok .cpu))
  | .call ok => inferInstanceAs (Decidable (CmLabel.Ok (.call ok)))
  | .poll ret status => inferInstanceAs (Decidable (CmLabel.Ok (.poll ret status)))

/-- **The step of a client** fails nothing, and brings no event that ends its loop. -/
def ClientLabel.Orderly : ClientLabel → Prop
  | .getEvent (some ev) => ev = .addrResolved ∨ ev = .routeResolved ∨ ev = .established
  | l => l.Ok

instance : DecidablePred ClientLabel.Orderly
  | .getEvent (some ev) => inferInstanceAs (Decidable (ev = .addrResolved ∨ ev = .routeResolved ∨
      ev = .established))
  | .getEvent none => inferInstanceAs (Decidable (ClientLabel.Ok (.getEvent none)))
  | .cpu => inferInstanceAs (Decidable (ClientLabel.Ok .cpu))
  | .call ok => inferInstanceAs (Decidable (ClientLabel.Ok (.call ok)))
  | .poll ret status => inferInstanceAs (Decidable (ClientLabel.Ok (.poll ret status)))

theorem CmLabel.Orderly.ok {l : CmLabel} (h : l.Orderly) : l.Ok := by
  cases l with
  | getEvent ev => cases ev with
    | none => exact h
    | some ev => rfl
  | _ => exact h

theorem ClientLabel.Orderly.ok {l : ClientLabel} (h : l.Orderly) : l.Ok := by
  cases l with
  | getEvent ev => cases ev with
    | none => exact h
    | some ev => rfl
  | _ => exact h

/-- **Nothing fails in the step**, and no loop ends by it. -/
def CmNetOrderly (_ : CmNet) : CmNetLabel → Prop
  | .server l => l.Orderly
  | .request _ => True
  | .client _ l => l.Orderly
  | .device _ _ ev => ev.Ok

instance (st : CmNet) : DecidablePred (CmNetOrderly st)
  | .server l => inferInstanceAs (Decidable l.Orderly)
  | .request _ => inferInstanceAs (Decidable True)
  | .client _ l => inferInstanceAs (Decidable l.Orderly)
  | .device _ _ ev => inferInstanceAs (Decidable ev.Ok)

theorem CmNetOrderly.noFailure (st : CmNet) (l : CmNetLabel) (h : CmNetOrderly st l) :
    CmNetNoFailure st l := by
  cases l with
  | server l => exact CmLabel.Orderly.ok h
  | request i => exact h
  | client i l => exact ClientLabel.Orderly.ok h
  | device i s ev => exact h

/-! ### The course of a client -/

namespace CmClient

/-- **The steps of a client**, one after the other. -/
def course : List ClientLabel :=
  [.call true, .call true, .call true, .getEvent (some .addrResolved), .call true,
    .getEvent (some .routeResolved), .call true, .call true, .call true, .call true, .call true,
    .call true,
    .call true, .call true, .getEvent (some .established), .call true, .poll .one .success,
    .poll .one .success, .cpu]

/-- The client behind the first `k` of them. -/
def place (k : ℕ) : CmClient := (course.take k).foldl (fun s l => (s.next l).getD s) start

/-- What is left to a client: four for each of its steps, as a request that it posts leaves three
things to the devices. -/
def left (s : CmClient) : ℕ := 4 * (19 - ((List.range 20).map place).idxOf s)

theorem place_next : ∀ k < 19, ∀ l ∈ course[k]?, (place k).next l =
    some (place (k + 1)) := by decide +kernel

theorem left_place : ∀ k < 20, (place k).left = 4 * (19 - k) := by decide +kernel

/-- The steps a client can make in an orderly run, wherever it is. -/
def orderlyLabels : List ClientLabel :=
  [.cpu, .call true, .poll .empty .success, .poll .one .success, .getEvent (some .addrResolved),
    .getEvent (some .routeResolved), .getEvent (some .established)]

theorem mem_orderlyLabels {l : ClientLabel} (h : l.Orderly) : l ∈ orderlyLabels := by
  cases l with
  | cpu => decide
  | call ok =>
    obtain rfl : ok = true := h
    decide
  | poll ret status =>
    obtain ⟨hret, rfl⟩ : ret ≠ .failed ∧ status = .success := h
    cases ret with
    | failed => exact absurd rfl hret
    | empty | one => decide
  | getEvent ev =>
    cases ev with
    | none => cases h
    | some ev =>
      have hev : ev = .addrResolved ∨ ev = .routeResolved ∨ ev = .established := h
      rcases hev with rfl | rfl | rfl <;> decide

/-- **A client keeps to its course**: it waits, or makes the next of its steps. -/
theorem place_step : ∀ k < 20, ∀ l ∈ orderlyLabels, ∀ s' ∈ (place k).next l,
    s' = place k ∨ k < 19 ∧ s' = place (k + 1) := by decide +kernel

theorem orderly_of_course : ∀ k < 19, ∀ l ∈ course[k]?, l.Orderly := by decide +kernel

theorem course_isSome : ∀ k < 19, (course[k]?).isSome = true := by decide +kernel

/-- **What a client does with its connection**, step by step. -/
theorem io_place : ∀ k < 19, ∀ l ∈ course[k]?, (place k).io l =
    if k = 12 then some .receive else if k = 13 then some .connect
    else if k = 14 then some .established
    else if k = 15 then some (.send true) else if k = 16 ∨ k = 17 then some (.poll .success)
    else none := by
  decide +kernel

/-- The phase of a client, step by step. -/
theorem phase_place : ∀ k < 20, (place k).phase =
    if k < 13 then .fresh else if k = 13 then .ready else if k = 14 then .asked
    else if k = 15 then .established else if k = 16 then .sent else if k = 17 then .half
    else .finished := by
  decide +kernel

theorem connectAsked_place : ∀ k < 20, (place k).connectAsked = decide (14 ≤ k) := by decide +kernel

end CmClient

/-! ### The server -/

/-- The server is in its setup, at its loop or in one of the first two handlers, and
releases nothing. -/
def CmServerPc.Orderly : CmServerPc → Prop
  | .createChannel => True
  | .createId => True
  | .bindAddr => True
  | .listen => True
  | .loop => True
  | .connect p _ => ¬p.IsLabel
  | .established _ _ => True
  | _ => False

/-- The steps to the end of the setup, or of the handler that runs. -/
def CmServerPc.left : CmServerPc → ℕ
  | .createChannel => 4
  | .createId => 3
  | .bindAddr => 2
  | .listen => 1
  | .connect .calloc _ => 8
  | .connect .allocPd _ => 7
  | .connect .createCq _ => 6
  | .connect .regRecvMr _ => 5
  | .connect .regSendMr _ => 4
  | .connect .createQp _ => 3
  | .connect .postReceive _ => 2
  | .connect .accept _ => 1
  | .established .pollRecv _ => 3
  | .established .postSend _ => 2
  | .established .pollSend _ => 1
  | _ => 0

/-- The step the server makes at a place where it fetches no event. -/
def CmServerPc.ownLabel : CmServerPc → CmLabel
  | .established .pollRecv _ => .poll .one .success
  | .established .pollSend _ => .poll .one .success
  | _ => .call true

theorem CmServerPc.orderly_ownLabel (pc : CmServerPc) : pc.ownLabel.Orderly := by
  unfold ownLabel
  split
  · exact ⟨by decide, rfl⟩
  · exact ⟨by decide, rfl⟩
  · rfl

theorem CmServerPc.not_isRequest_ownLabel (pc : CmServerPc) : ¬pc.ownLabel.IsRequest := by
  unfold ownLabel
  split <;> exact id

namespace CmServer

/-- The server goes on. -/
structure Orderly (s : CmServer) : Prop where
  pc : s.pc.Orderly
  stop : s.stop = false

/-- The connections whose ESTABLISHED has not been fetched. -/
def pending (s : CmServer) : Finset ℕ :=
  (Finset.range s.conns).filter fun c => CmEvent.established c ∉ s.events

/-- **What is left to the server**, where there will be `n` connections: four for each of
its steps. -/
def left (n : ℕ) (s : CmServer) : ℕ := 4 * (17 * (n - s.conns) + 5 * s.pending.card + s.pc.left)

section Orderly

variable {s s' : CmServer} {l : CmLabel} {n : ℕ}

/-- **The server keeps serving.** -/
theorem Orderly.next (h : s.Orderly) (hl : l.Orderly) (hs : s.next l = some s') : s'.Orderly := by
  have hok := hl.ok
  have hserving := h.pc
  have hstop := h.stop
  unfold CmServer.next at hs
  split at hs
  · obtain rfl : _ = true := hok
    exact Option.some.inj hs ▸ ⟨trivial, hstop⟩
  · obtain rfl : _ = true := hok
    exact Option.some.inj hs ▸ ⟨trivial, hstop⟩
  · obtain rfl : _ = true := hok
    exact Option.some.inj hs ▸ ⟨trivial, hstop⟩
  · obtain rfl : _ = true := hok
    exact Option.some.inj hs ▸ ⟨trivial, hstop⟩
  · rw [hstop] at hs
    cases hs
  · cases hok
  · rename_i ev hpc
    split at hs
    · rename_i hcan
      obtain rfl := Option.some.inj hs
      obtain ⟨type, id⟩ := ev
      obtain ⟨-, hdel⟩ := hcan
      have hev : type = .connectRequest ∨ type = .established := hl
      rcases hev with htype | htype
      · obtain rfl : type = .connectRequest := htype
        cases id with
        | listener => exact hdel.elim
        | conn c => exact ⟨id, hstop⟩
      · obtain rfl : type = .established := htype
        cases id with
        | listener => exact hdel.elim
        | conn c => exact ⟨trivial, hstop⟩
    · cases hs
  · rename_i p c ok hpc
    obtain rfl : ok = true := hok
    cases p <;> first
      | cases hs
        first | exact ⟨id, hstop⟩ | exact ⟨trivial, rfl⟩
      | cases hs
  · rename_i p c hpc
    rw [hpc] at hserving
    cases p <;> first
      | exact (hserving trivial).elim
      | cases hs
  · obtain rfl : _ = true := hok
    exact Option.some.inj hs ▸ ⟨trivial, hstop⟩
  · rename_i p c ret status hpc
    obtain ⟨hret, rfl⟩ := hok
    cases p with
    | postSend => cases hs
    | pollRecv | pollSend =>
      cases ret with
      | failed => exact absurd rfl hret
      | empty => exact Option.some.inj hs ▸ h
      | one => exact Option.some.inj hs ▸ ⟨trivial, by first | exact hstop | rfl⟩
  · rename_i hpc
    rw [hpc] at hserving
    exact hserving.elim
  · rename_i hpc
    rw [hpc] at hserving
    exact hserving.elim
  · rename_i hpc
    rw [hpc] at hserving
    exact hserving.elim
  · cases hs

/-- **A step of the server at a place where it fetches no event**, when it is made. -/
theorem Orderly.own_step (h : s.Orderly) (hpc : s.pc ≠ .loop) :
    ∃ s', s.next s.pc.ownLabel = some s' ∧
    s'.conns = s.conns ∧ s'.events = s.events ∧ s'.pc.left + 1 ≤ s.pc.left := by
  have hserving := h.pc
  obtain ⟨pc, stop, conns, events, log⟩ := s
  cases pc with
  | createChannel | createId | bindAddr | listen => exact ⟨_, rfl, rfl, rfl, Nat.le_refl _⟩
  | loop => exact absurd rfl hpc
  | connect p c =>
    cases p with
    | errDestroyQp | errDeregSend | errDeregRecv | errDestroyCq | errDeallocPd | errFreeCtx =>
      exact (hserving trivial).elim
    | _ => exact ⟨_, rfl, rfl, rfl, Nat.le_refl _⟩
  | established p c => cases p <;> exact ⟨_, rfl, rfl, rfl, Nat.le_refl _⟩
  | disconnect | destroyListener | destroyChannel | done | returned => exact hserving.elim

/-- A step that fetches no event. -/
theorem left_add_le (hconns : s'.conns = s.conns) (hevents : s'.events = s.events)
    (hpc : s'.pc.left + 1 ≤ s.pc.left) : s'.left n + 4 ≤ s.left n := by
  rw [left, left, pending, pending, hconns, hevents]
  omega

/-- A CONNECT_REQUEST is fetched. -/
theorem left_request (hn : s.conns < n) :
    (s.dispatch ⟨.connectRequest, .conn s.conns⟩).left n + 4 ≤ s.left n := by
  have hpending : (s.dispatch ⟨.connectRequest, .conn s.conns⟩).pending ⊆
      insert s.conns s.pending := by
    intro c hc
    obtain ⟨hlt, hnew⟩ := Finset.mem_filter.mp hc
    have hlt : c < s.conns + 1 := Finset.mem_range.mp hlt
    rcases eq_or_ne c s.conns with rfl | hne
    · exact Finset.mem_insert_self ..
    · refine Finset.mem_insert_of_mem
        (Finset.mem_filter.mpr ⟨Finset.mem_range.mpr (by omega), fun hmem => ?_⟩)
      exact hnew (List.mem_append_left _ hmem)
  have hcard := (Finset.card_le_card hpending).trans (Finset.card_insert_le ..)
  have hconns : (s.dispatch ⟨.connectRequest, .conn s.conns⟩).conns = s.conns + 1 := rfl
  have hleft : (s.dispatch ⟨.connectRequest, .conn s.conns⟩).pc.left = 8 := rfl
  rw [left, left, hconns, hleft]
  omega

/-- ESTABLISHED is fetched. -/
theorem left_establish {c : ℕ} (hc : c < s.conns) (hnew : CmEvent.established c ∉ s.events) :
    (s.dispatch (.established c)).left n + 4 ≤ s.left n := by
  have hpending : (s.dispatch (.established c)).pending ⊂ s.pending := by
    refine Finset.ssubset_iff_of_subset (fun d hd => ?_) |>.mpr
      ⟨c, Finset.mem_filter.mpr ⟨Finset.mem_range.mpr hc, hnew⟩, fun hmem => ?_⟩
    · obtain ⟨hlt, hd⟩ := Finset.mem_filter.mp hd
      exact Finset.mem_filter.mpr ⟨hlt, fun hmem => hd (List.mem_append_left _ hmem)⟩
    · exact (Finset.mem_filter.mp hmem).2 (List.mem_append_right _ (List.mem_singleton_self _))
  have hcard := Finset.card_lt_card hpending
  have hconns : (s.dispatch (.established c)).conns = s.conns := rfl
  have hleft : (s.dispatch (.established c)).pc.left = 3 := rfl
  rw [left, left, hconns, hleft]
  omega

end Orderly

end CmServer

/-! ### The system -/

/-- What the devices have not done, of the requests either side has posted. -/
def CmConn.left (k : CmConn) : ℕ := k.msg.left .client + k.msg.left .server

/-- A program leaves at most three things more to the devices. -/
theorem CmConn.act_left {k k' : CmConn} {s : Side} {a : CmAct} (h : k.act s a = some k') :
    k'.left ≤ k.left + 3 := by
  have hsame : ∀ (e : MsgEnd CmBuf) (k' : CmConn), k'.msg = k.msg.set s e →
      e.posted = (k.msg.ends s).posted → e.sent = (k.msg.ends s).sent →
      e.acked = (k.msg.ends s).acked → e.executed = (k.msg.ends s).executed → k'.left = k.left := by
    intro e k' hmsg hposted hsent hacked hexec
    cases s <;> simp [CmConn.left, hmsg, MsgConn.left, MsgConn.set, Side.other, hposted, hsent,
      hacked, hexec]
  cases a with
  | receive =>
    obtain rfl := Option.some.inj h
    have hleft := hsame ((k.msg.ends s).postRecv ⟨0, .recvBuf, bufferSize⟩) (k.postReceive s)
      rfl rfl rfl rfl rfl
    omega
  | connect => exact Option.some.inj h ▸ Nat.le_add_right _ 3
  | accept => exact Option.some.inj h ▸ Nat.le_add_right _ 3
  | established =>
    simp only [CmConn.act] at h
    split at h
    · exact Option.some.inj h ▸ Nat.le_add_right _ 3
    · cases h
  | send ok =>
    obtain rfl := Option.some.inj h
    cases ok with
    | false =>
      have hleft := hsame (k.filled s) (k.postSend s false) rfl rfl rfl rfl rfl
      omega
    | true =>
      simp only [CmConn.left, CmConn.postSend, MsgConn.left, MsgConn.set, MsgEnd.postSend,
        CmConn.filled, MsgEnd.store, if_true]
      cases s <;> simp [Side.other] <;> omega
  | poll status =>
    simp only [CmConn.act, CmConn.poll] at h
    split at h
    · cases h
    · rename_i wc rest hcq
      split at h
      · obtain rfl := Option.some.inj h
        exact (hsame { k.msg.ends s with cq := rest } _ rfl rfl rfl rfl rfl).le.trans
          (Nat.le_add_right _ 3)
      · cases h

namespace CmNet

/-- The clients that the server knows are below some number. -/
theorem exists_bound (st : CmNet) : ∃ n, ∀ i ∈ st.peers, i < n :=
  ⟨st.peers.sum + 1, fun _ hi => Nat.lt_succ_of_le (List.le_sum_of_mem hi)⟩

/-- What is left of the connection of a client. -/
def connLeft (st : CmNet) (i : ℕ) : ℕ := (st.clients i).left + (st.conns i).left

/-- **What is left to do**, where the clients below `n` are served. -/
def left (n : ℕ) (st : CmNet) : ℕ := st.server.left n + ∑ i ∈ Finset.range n, st.connLeft i

/-- **An orderly run** in which the clients below `n` are served. -/
structure Underway (n : ℕ) (st : CmNet) : Prop where
  reach : cmNetLts.Reach CmNetOrderly st
  serving : st.server.Orderly
  places : ∀ i, ∃ k < 20, st.clients i = CmClient.place k
  below : ∀ i ∈ st.peers, i < n

/-- A step leaves less to do. -/
def Advances (n : ℕ) (st : CmNet) : Prop :=
  ∃ l st', CmNetOrderly st l ∧ st.next l = some st' ∧ (∀ i ∈ st'.peers, i < n) ∧
  st'.left n < st.left n

section Steps

variable {st st' : CmNet} {n i : ℕ}

/-- A step changes what is left of one connection by three at most. -/
theorem sum_connLeft_le {m : ℕ} (hsame : ∀ j ≠ i, st'.connLeft j = st.connLeft j)
    (hle : st'.connLeft i ≤ st.connLeft i + m) :
    ∑ j ∈ Finset.range n, st'.connLeft j ≤ ∑ j ∈ Finset.range n, st.connLeft j + m := by
  by_cases hi : i ∈ Finset.range n
  · have hrest : ∑ j ∈ (Finset.range n).erase i, st'.connLeft j =
        ∑ j ∈ (Finset.range n).erase i, st.connLeft j :=
      Finset.sum_congr rfl fun j hj => hsame j (Finset.ne_of_mem_erase hj)
    have hnew := Finset.sum_erase_add (Finset.range n) (fun j => st'.connLeft j) hi
    have hold := Finset.sum_erase_add (Finset.range n) (fun j => st.connLeft j) hi
    omega
  · rw [Finset.sum_congr rfl fun j hj => hsame j fun heq => hi (heq ▸ hj)]
    exact Nat.le_add_right _ m

/-- A step leaves less to do of one connection. -/
theorem sum_connLeft_lt (hi : i < n) (hsame : ∀ j ≠ i, st'.connLeft j = st.connLeft j)
    (hlt : st'.connLeft i < st.connLeft i) :
    ∑ j ∈ Finset.range n, st'.connLeft j < ∑ j ∈ Finset.range n, st.connLeft j := by
  refine Finset.sum_lt_sum (fun j _ => ?_) ⟨i, Finset.mem_range.mpr hi, hlt⟩
  rcases eq_or_ne j i with rfl | hne
  · exact hlt.le
  · exact (hsame j hne).le

theorem conns_setConn_self (k : CmConn) : (st.setConn i k).conns i = k := Function.update_self ..

theorem conns_setConn_of_ne {j : ℕ} (k : CmConn) (hne : j ≠ i) :
    (st.setConn i k).conns j = st.conns j :=
  Function.update_of_ne hne ..

/-- An action of a side changes its connection only. -/
theorem act_eq_some {s : Side} {a : CmAct} (h : st.act i s a = some st') :
    ∃ k, (st.conns i).act s a = some k ∧ st' = st.setConn i k := by
  obtain ⟨k, hk, rfl⟩ := Option.map_eq_some_iff.mp h
  exact ⟨k, hk, rfl⟩

/-- **What a step does to the programs**, whatever it does to the connections. -/
theorem next_cases {l : CmNetLabel} (hs : st.next l = some st') :
    (∃ l', l = .server l' ∧ st.server.next l' = some st'.server ∧ st'.clients = st.clients) ∨
    (∃ i, l = .request i ∧ st.server.next
      (.getEvent (some ⟨.connectRequest, .conn st.server.conns⟩)) =
      some st'.server ∧ st'.clients = st.clients) ∨
    (∃ i l' c', l = .client i l' ∧ (st.clients i).next l' = some c' ∧
      st'.clients = Function.update st.clients i c' ∧ st'.server = st.server) ∨
    (∃ i s ev, l = .device i s ev ∧ st'.clients = st.clients ∧ st'.server = st.server) := by
  cases l with
  | server l =>
    refine Or.inl ⟨l, rfl, ?_⟩
    simp only [next] at hs
    split at hs
    · cases hs
    · obtain ⟨s', hs', hs⟩ := Option.bind_eq_some_iff.mp hs
      split at hs
      · exact Option.some.inj hs ▸ ⟨hs', rfl⟩
      · obtain ⟨i, -, hs⟩ := Option.bind_eq_some_iff.mp hs
        obtain ⟨k, -, rfl⟩ := act_eq_some hs
        exact ⟨hs', rfl⟩
  | request i =>
    refine Or.inr (Or.inl ⟨i, rfl, ?_⟩)
    simp only [next] at hs
    split at hs
    · obtain ⟨s', hs', rfl⟩ := Option.map_eq_some_iff.mp hs
      exact ⟨hs', rfl⟩
    · cases hs
  | client i l =>
    obtain ⟨c', hc', hs⟩ := Option.bind_eq_some_iff.mp hs
    refine Or.inr (Or.inr (Or.inl ⟨i, l, c', rfl, hc', ?_⟩))
    dsimp only at hs
    split at hs
    · exact Option.some.inj hs ▸ ⟨rfl, rfl⟩
    · obtain ⟨k, -, rfl⟩ := act_eq_some hs
      exact ⟨rfl, rfl⟩
  | device i s ev =>
    obtain ⟨msg, -, rfl⟩ := Option.map_eq_some_iff.mp hs
    exact Or.inr (Or.inr (Or.inr ⟨i, s, ev, rfl, rfl, rfl⟩))

/-- **An orderly run goes on.** -/
theorem Underway.step (h : st.Underway n) {l : CmNetLabel} (hok : CmNetOrderly st l)
    (hs : st.next l = some st') (hbelow : ∀ i ∈ st'.peers, i < n) : st'.Underway n := by
  have hreach := h.reach.tail hok hs
  rcases next_cases hs with ⟨l', rfl, hnext, hclients⟩ | ⟨i, rfl, hnext, hclients⟩ |
    ⟨i, l', c', rfl, hnext, hclients, hserver⟩ | ⟨i, s, ev, rfl, hclients, hserver⟩
  · exact ⟨hreach, h.serving.next hok hnext, hclients ▸ h.places, hbelow⟩
  · have hrequest : CmLabel.Orderly (.getEvent (some ⟨.connectRequest, .conn st.server.conns⟩)) :=
      Or.inl rfl
    exact ⟨hreach, h.serving.next hrequest hnext, hclients ▸ h.places, hbelow⟩
  · refine ⟨hreach, hserver ▸ h.serving, fun j => ?_, hbelow⟩
    rw [hclients]
    rcases eq_or_ne j i with rfl | hne
    · rw [Function.update_self]
      obtain ⟨k, hk, hplace⟩ := h.places j
      rw [hplace] at hnext
      rcases CmClient.place_step k hk l' (CmClient.mem_orderlyLabels hok) c' hnext with hsame |
        ⟨hlt, hsucc⟩
      · exact ⟨k, hk, hsame⟩
      · exact ⟨k + 1, by omega, hsucc⟩
    · rw [Function.update_of_ne hne]
      exact h.places j
  · exact ⟨hreach, hserver ▸ h.serving, hclients ▸ h.places, hbelow⟩

/-- **A client that can make its next step** leaves less to do. -/
theorem Underway.advances_client (h : st.Underway n) (hi : i < n) {k : ℕ} (hk : k < 19)
    (hplace : st.clients i = CmClient.place k) {l : ClientLabel} (hl : CmClient.course[k]? = some l)
    (horderly : l.Orderly)
    (hact : ∀ a, (CmClient.place k).io l = some a → ∃ c, (st.conns i).act .client a = some c) :
    st.Advances n := by
  have hnext := CmClient.place_next k hk l hl
  have hleft : (CmClient.place (k + 1)).left + 4 = (CmClient.place k).left := by
    rw [CmClient.left_place k (by omega), CmClient.left_place (k + 1) (by omega)]
    omega
  obtain ⟨conn, hconn, hs⟩ : ∃ conn, conn.left ≤ (st.conns i).left + 3 ∧
      st.next (.client i l) = some
        (({ st with clients := Function.update st.clients i (CmClient.place (k + 1)) } :
          CmNet).setConn i conn) := by
    simp only [next, hplace, hnext, Option.bind_some]
    cases hio : (CmClient.place k).io l with
    | none =>
      refine ⟨st.conns i, Nat.le_add_right _ 3, ?_⟩
      simp only [setConn, Function.update_eq_self]
    | some a =>
      obtain ⟨c, hc⟩ := hact a hio
      refine ⟨c, CmConn.act_left hc, ?_⟩
      simp only [act, hc, Option.map_some]
  refine ⟨.client i l, _, horderly, hs, h.below, Nat.add_lt_add_left
    (sum_connLeft_lt hi (fun j hne => ?_) ?_) _⟩
  · simp only [connLeft, setConn, Function.update_of_ne hne]
  · simp only [connLeft, setConn, Function.update_self, hplace]
    omega

/-- **A server that can make a step of its own** leaves less to do. -/
theorem Underway.advances_server (h : st.Underway n) {l : CmLabel} {s' : CmServer}
    (horderly : l.Orderly)
    (hreq : ¬l.IsRequest) (hnext : st.server.next l = some s')
    (hleft : s'.left n + 4 ≤ st.server.left n) (hact : ∀ c a, st.server.io l = some (c, a) →
      ∃ i k, st.peers[c]? = some i ∧ (st.conns i).act .server a = some k) : st.Advances n := by
  cases hio : st.server.io l with
  | none =>
    have hs : st.next (.server l) = some { st with server := s' } := by
      simp only [next, if_neg hreq, hnext, Option.bind_some, hio]
    have hlt : s'.left n < st.server.left n := by omega
    exact ⟨.server l, _, horderly, hs, h.below, Nat.add_lt_add_right hlt _⟩
  | some ca =>
    obtain ⟨c, a⟩ := ca
    obtain ⟨i, k, hi, hk⟩ := hact c a hio
    have hs : st.next (.server l) = some (({ st with server := s' } : CmNet).setConn i k) := by
      simp only [next, if_neg hreq, hnext, Option.bind_some, hio, hi, act, hk, Option.map_some]
    have hconn := CmConn.act_left hk
    let st' := ({ st with server := s' } : CmNet).setConn i k
    have hsum : ∑ j ∈ Finset.range n, st'.connLeft j ≤ ∑ j ∈ Finset.range n, st.connLeft j + 3 := by
      refine sum_connLeft_le (i := i) (fun j hne => ?_) ?_
      · simp only [st', connLeft, setConn, Function.update_of_ne hne]
      · simp only [st', connLeft, setConn, Function.update_self]
        omega
    refine ⟨.server l, st', horderly, hs, h.below, ?_⟩
    change s'.left n + _ < st.server.left n + _
    omega

/-- **A device with something to do** leaves less to do. -/
theorem Underway.advances_device (h : st.Underway n) (hi : i < n) {s : Side} {ev : MsgEvent}
    {msg : MsgConn CmBuf} (hok : ev.Ok) (hnext : (st.conns i).msg.next s ev = some msg)
    (hlt : msg.left s < (st.conns i).msg.left s)
    (hother : msg.left s.other = (st.conns i).msg.left s.other) :
    st.Advances n := by
  have hs : st.next (.device i s ev) = some (st.setConn i { st.conns i with msg := msg }) := by
    simp only [next, hnext, Option.map_some]
  refine ⟨.device i s ev, _, hok, hs, h.below, Nat.add_lt_add_left
    (sum_connLeft_lt hi (fun j hne => ?_) ?_) _⟩
  · simp only [connLeft, setConn, Function.update_of_ne hne]
  · simp only [connLeft, setConn, Function.update_self, CmConn.left]
    cases s <;> simp only [Side.other] at hother <;> omega

end Steps

end CmNet

/-! ### A connection that is not at its end -/

/-- What a program does keeps the completions as they are. -/
theorem CmConn.act_truthful {k k' : CmConn} {s : Side} {a : CmAct}
    (h : ∀ t, (k.msg.ends t).Truthful)
    (hk : k.act s a = some k') : ∀ t, (k'.msg.ends t).Truthful := by
  have hset : ∀ {e : MsgEnd CmBuf}, e.Truthful → ∀ t, ((k.msg.set s e).ends t).Truthful := fun he =>
    MsgConn.forall_ends_set (P := fun _ e => e.Truthful) he (h s.other)
  cases a with
  | receive => exact Option.some.inj hk ▸ hset (h s)
  | connect => exact Option.some.inj hk ▸ h
  | accept => exact Option.some.inj hk ▸ h
  | established =>
    simp only [CmConn.act] at hk
    split at hk
    · exact Option.some.inj hk ▸ h
    · cases hk
  | send ok =>
    obtain rfl := Option.some.inj hk
    cases ok <;> exact hset (h s)
  | poll status =>
    simp only [CmConn.act, CmConn.poll] at hk
    split at hk
    · cases hk
    · rename_i wc rest hcq
      split at hk
      · refine Option.some.inj hk ▸ hset fun herr w hw => ?_
        exact h s herr w (hcq ▸ List.mem_cons_of_mem wc hw)
      · cases hk

namespace CmSession

/-- **No completion of a session tells of a failure.** -/
theorem truthful_of_reach {ok : CmSession → CmSessionLabel → Prop} {x : CmSession}
    (h : cmSessionLts.Reach ok x) : ∀ t, (x.conn.msg.ends t).Truthful := by
  refine h.invariant (I := fun x => ∀ t, (x.conn.msg.ends t).Truthful) ?_ ?_
  · rintro _ rfl t _ wc hwc
    exact absurd hwc List.not_mem_nil
  · intro x l x' hx _ hs
    cases l with
    | client a =>
      obtain ⟨p, -, hs⟩ := Option.bind_eq_some_iff.mp hs
      obtain ⟨k, hk, rfl⟩ := Option.map_eq_some_iff.mp hs
      exact CmConn.act_truthful hx hk
    | server a =>
      simp only [cmSessionLts, Lts.ofFun, next] at hs
      split at hs
      · obtain ⟨p, -, hs⟩ := Option.bind_eq_some_iff.mp hs
        obtain ⟨k, hk, rfl⟩ := Option.map_eq_some_iff.mp hs
        exact CmConn.act_truthful hx hk
      · cases hs
    | device s ev =>
      simp only [cmSessionLts, Lts.ofFun, next] at hs
      split at hs
      · rename_i hok
        obtain ⟨msg, hmsg, rfl⟩ := Option.map_eq_some_iff.mp hs
        exact (MsgConn.next_move hok hmsg).truthful hx
      · cases hs

namespace Exchanged

variable {x : CmSession}

/-- The first completion of a queue can be taken. -/
theorem exists_poll (h : x.Exchanged) (ht : ∀ t, (x.conn.msg.ends t).Truthful) {s : Side}
    (hcq : (x.conn.msg.ends s).cq ≠ []) : ∃ k, x.conn.act s (.poll .success) = some k := by
  obtain ⟨wc, rest, hcq⟩ := List.exists_cons_of_ne_nil hcq
  have hwc : wc.status = .success := ht s (h.traffic.ends s).error wc (hcq ▸ List.mem_cons_self)
  exact ⟨_, by simp only [CmConn.act, CmConn.poll, hcq]; exact if_pos hwc⟩

/-- **A message that is posted and has not completed** is on its way: a device can go on. -/
theorem exists_device (h : x.Exchanged) {s : Side} (hsends : (x.counts s).sends = 1)
    (hacked : (x.conn.msg.ends s).acked = 0) :
    ∃ ev msg, ev.Ok ∧ x.conn.msg.next s ev = some msg ∧ msg.left s < x.conn.msg.left s ∧
      msg.left s.other = x.conn.msg.left s.other := by
  have hposted : (x.conn.msg.ends s).posted.length = 1 := by
    rw [(h.traffic.ends s).posted, List.length_replicate, hsends]
  refine MsgConn.exists_next (h.traffic.counted s) (fun t => (h.traffic.ends t).error) (by omega) ?_
  intro m hm
  obtain rfl := h.traffic.wire s m hm
  have hexec := (h.traffic.counted s).executed_lt (List.ne_nil_of_mem hm)
  have hrq := (h.traffic.ends s.other).rq_length
  rw [h.receives_of_sends (by omega)] at hrq
  have hne : (x.conn.msg.ends s.other).rq ≠ [] := fun hnil => by
    rw [hnil, List.length_nil] at hrq
    omega
  obtain ⟨wr, rq, hrq'⟩ := List.exists_cons_of_ne_nil hne
  have hwr : wr = cmRecvWr := (h.traffic.ends s.other).rq_wr wr (hrq' ▸ List.mem_cons_self)
  exact ⟨wr, rq, hrq', hwr ▸ length_cmMessage_le s⟩

/-- Where a side has an empty queue, it has polled all that has come. -/
theorem polls_eq (h : x.Exchanged) {s : Side} (hcq : (x.conn.msg.ends s).cq = []) :
    (x.counts s).polls = (x.conn.msg.ends s).acked + (x.conn.msg.ends s).executed := by
  have hlen := (h.traffic.ends s).cq_length
  rw [hcq] at hlen
  simpa using hlen

/-- **A client that has polled twice** has the reply of the server in its buffer. -/
theorem answered (h : x.Exchanged) (hx : x.client = .finished) :
    cmMessage .server ∈ x.conn.said .server ∧
    Stream.window ((x.conn.msg.ends .client).mem .recvBuf) 0 (cmMessage .server).length =
      cmMessage .server := by
  have hexec := (h.settled hx).2.2
  exact h.arrived (s := .server) fun h0 => absurd (hexec.symm.trans h0) Nat.one_ne_zero

/-- Only what has been executed has completed. -/
theorem acked_le (h : x.Exchanged) (s : Side) :
    (x.conn.msg.ends s).acked ≤ (x.conn.msg.ends s.other).executed :=
  (h.traffic.counted s).acked_le (h.traffic.ends s).error

end Exchanged

end CmSession

namespace CmNet.Underway

variable {st : CmNet} {n i : ℕ}

theorem course (h : st.Underway n) : st.Course :=
  (session_reach (h.reach.mono CmNetOrderly.noFailure)).1

theorem exchanged (h : st.Underway n) (i : ℕ) : (st.session i).Exchanged :=
  CmSession.exchanged_of_reach ((session_reach (h.reach.mono CmNetOrderly.noFailure)).2 i)

theorem truthful (h : st.Underway n) (i : ℕ) : ∀ t, ((st.conns i).msg.ends t).Truthful :=
  CmSession.truthful_of_reach ((session_reach (h.reach.mono CmNetOrderly.noFailure)).2 i)

/-- The client of a connection. -/
theorem exists_peer (h : st.Underway n) {c : ℕ} (hc : c < st.server.conns) :
    ∃ i, st.peers[c]? = some i ∧ i < n ∧ st.peers.idxOf i = c := by
  have hlt : c < st.peers.length := h.course.length ▸ hc
  have hget : st.peers[c]? = some st.peers[c] := List.getElem?_eq_getElem hlt
  exact ⟨st.peers[c], hget, h.below _ (List.getElem_mem hlt), (h.course.idxOf_eq hget _).mpr rfl⟩

/-- The phase of a client says which steps it has made. -/
theorem exists_place (h : st.Underway n) (i : ℕ) : ∃ k < 20, st.clients i = CmClient.place k ∧
    (st.session i).client = (CmClient.place k).phase := by
  obtain ⟨k, hk, hplace⟩ := h.places i
  exact ⟨k, hk, hplace, congrArg CmClient.phase hplace⟩

/-- **A client at the step `k`** leaves less to do if it can make the step. -/
theorem advances_place (h : st.Underway n) (hi : i < n) {k : ℕ} (hk : k < 19)
    (hplace : st.clients i = CmClient.place k) (haccepted : k = 14 → (st.conns i).accepted = true)
    (hcq : k = 16 ∨ k = 17 → ((st.conns i).msg.ends .client).cq ≠ []) : st.Advances n := by
  obtain ⟨l, hl⟩ := Option.isSome_iff_exists.mp (CmClient.course_isSome k hk)
  refine h.advances_client hi hk hplace hl (CmClient.orderly_of_course k hk l hl) fun a ha => ?_
  rw [CmClient.io_place k hk l hl] at ha
  split at ha
  · cases ha
    exact ⟨_, rfl⟩
  split at ha
  · cases ha
    exact ⟨_, rfl⟩
  split at ha
  · rename_i h14
    cases ha
    exact ⟨_, if_pos (haccepted h14)⟩
  split at ha
  · cases ha
    exact ⟨_, rfl⟩
  split at ha
  · rename_i hpoll
    cases ha
    exact (h.exchanged i).exists_poll (h.truthful i) (hcq hpoll)
  · cases ha

/-- **A client that is connected and has not said anything** can go on. -/
theorem advances_unsaid (h : st.Underway n) (hi : i < n) (hserver : (st.session i).server ≠ .fresh)
    (haccepted : (st.conns i).accepted = true)
    (hsends : ((st.session i).counts .client).sends ≠ 1) :
    st.Advances n := by
  obtain ⟨k, hk, hplace, hphase⟩ := h.exists_place i
  have hasked := (h.exchanged i).asked hserver
  change (st.session i).client.counts.sends ≠ 1 at hsends
  rw [hphase, CmClient.phase_place k hk] at hasked hsends
  have hwhere : k = 14 ∨ k = 15 := by
    by_contra hno
    split at hasked
    · exact hasked.1 rfl
    split at hasked
    · exact hasked.2 rfl
    simp only [not_or] at hno
    rw [if_neg (by assumption), if_neg (by assumption), if_neg hno.1, if_neg hno.2] at hsends
    split at hsends
    · exact hsends rfl
    split at hsends <;> exact hsends rfl
  exact h.advances_place hi (by omega) hplace (fun _ => haccepted) (fun hpoll => by omega)

/-- **A server whose next step is not held up** leaves less to do. -/
theorem advances_own (h : st.Underway n) (hpc : st.server.pc ≠ .loop)
    (hpoll : ∀ p c i, st.server.pc = .established p c → p ≠ .postSend → st.peers[c]? = some i →
      ((st.conns i).msg.ends .server).cq ≠ []) : st.Advances n := by
  obtain ⟨s', hnext, hconns, hevents, hleft⟩ := h.serving.own_step hpc
  refine h.advances_server (CmServerPc.orderly_ownLabel _) (CmServerPc.not_isRequest_ownLabel _)
    hnext
    (CmServer.left_add_le hconns hevents hleft) fun c a hio => ?_
  cases hp : st.server.pc with
  | connect p c' =>
    obtain ⟨i, hi, -, -⟩ := h.exists_peer (h.course.server.connect p c' hp).1
    cases p <;> simp only [CmServer.io, CmServerPc.ownLabel, hp] at hio <;> cases hio <;>
      exact ⟨i, _, hi, rfl⟩
  | established p c' =>
    obtain ⟨i, hi, -, -⟩ := h.exists_peer (h.course.server.established p c' hp).1
    cases p with
    | postSend =>
      simp only [CmServer.io, CmServerPc.ownLabel, hp] at hio
      cases hio
      exact ⟨i, _, hi, rfl⟩
    | pollRecv | pollSend =>
      obtain ⟨k, hk⟩ := (h.exchanged i).exists_poll (h.truthful i) (hpoll _ _ i hp (by simp) hi)
      simp only [CmServer.io, CmServerPc.ownLabel, hp] at hio
      cases hio
      exact ⟨i, k, hi, hk⟩
  | _ =>
    simp only [CmServer.io, CmServerPc.ownLabel, hp] at hio
    cases hio

/-- **The server waits for a client**: the client can say something, or its message is on
its way. -/
theorem advances_pollRecv (h : st.Underway n) {c : ℕ}
    (hpc : st.server.pc = .established .pollRecv c)
    (hi : st.peers[c]? = some i) (hcq : ((st.conns i).msg.ends .server).cq = []) :
    st.Advances n := by
  have hex := h.exchanged i
  have hin := h.below i (List.mem_of_getElem? hi)
  have hserver : (st.session i).server = .established := by
    change st.server.phase (st.peers.idxOf i) = _
    rw [(h.course.idxOf_eq hi i).mpr rfl]
    simp only [CmServer.phase, hpc, if_true]
  have hpolls := hex.polls_eq hcq
  have hacked := hex.acked_le .client
  have hcounts : ((st.session i).counts .server).polls = 0 := by
    change (st.session i).server.counts.polls = _
    rw [hserver]
    rfl
  rw [hcounts] at hpolls
  have hzero : ((st.session i).conn.msg.ends .client).acked = 0 := by
    change _ ≤ ((st.session i).conn.msg.ends .server).executed at hacked
    omega
  by_cases hsends : ((st.session i).counts .client).sends = 1
  · obtain ⟨ev, msg, hok, hnext, hlt, hother⟩ := hex.exists_device hsends hzero
    exact h.advances_device hin hok hnext hlt hother
  · have hne : (st.session i).server ≠ .fresh ∧ (st.session i).server ≠ .ready := by
      rw [hserver]
      decide
    exact h.advances_unsaid hin hne.1 (hex.accepted.mpr hne) hsends

/-- **The server waits for its reply**, which is on its way. -/
theorem advances_pollSend (h : st.Underway n) {c : ℕ}
    (hpc : st.server.pc = .established .pollSend c)
    (hi : st.peers[c]? = some i) (hcq : ((st.conns i).msg.ends .server).cq = []) :
    st.Advances n := by
  have hex := h.exchanged i
  have hserver : (st.session i).server = .replied := by
    change st.server.phase (st.peers.idxOf i) = _
    rw [(h.course.idxOf_eq hi i).mpr rfl]
    simp only [CmServer.phase, hpc, if_true]
  have hpolls := hex.polls_eq hcq
  have hcounts : (st.session i).counts .server = ⟨1, 1, 1⟩ := by
    change (st.session i).server.counts = _
    rw [hserver]
    rfl
  have hexec := hex.received (by rw [hserver]; decide)
  rw [hcounts] at hpolls
  change 1 = _ at hpolls
  obtain ⟨ev, msg, hok, hnext, hlt, hother⟩ :=
    hex.exists_device (s := .server) (by rw [hcounts]) (by omega)
  exact h.advances_device (h.below i (List.mem_of_getElem? hi)) hok hnext hlt hother

/-- **A server in its setup or in a handler** can go on, or one of those it waits for can. -/
theorem advances_handler (h : st.Underway n) (hpc : st.server.pc ≠ .loop) : st.Advances n := by
  by_cases hwait : ∃ p c i, st.server.pc = .established p c ∧ p ≠ .postSend ∧
    st.peers[c]? = some i ∧
      ((st.conns i).msg.ends .server).cq = []
  · obtain ⟨p, c, i, hp, hne, hi, hcq⟩ := hwait
    cases p with
    | pollRecv => exact h.advances_pollRecv hp hi hcq
    | postSend => exact absurd rfl hne
    | pollSend => exact h.advances_pollSend hp hi hcq
  · exact h.advances_own hpc fun p c i hp hne hi hcq => hwait ⟨p, c, i, hp, hne, hi, hcq⟩

/-- **The server takes up a client** that has asked for its connection. -/
theorem advances_request (h : st.Underway n) (hpc : st.server.pc = .loop) (hi : i < n)
    (hasked : (st.clients i).connectAsked = true) (hnew : i ∉ st.peers) : st.Advances n := by
  have hnext : st.server.next (.getEvent (some ⟨.connectRequest, .conn st.server.conns⟩)) =
      some (st.server.dispatch ⟨.connectRequest, .conn st.server.conns⟩) :=
    CmServer.next_getEvent_iff.mpr ⟨hpc, h.serving.stop, rfl, rfl⟩
  have hs : st.next (.request i) = some { st with
      server := st.server.dispatch ⟨.connectRequest, .conn st.server.conns⟩,
      peers := st.peers ++ [i] } := by
    simp only [next, if_pos (And.intro hasked hnew), hnext, Option.map_some]
  -- the clients that the server knows are below the bound, and this one is not among them
  have hlt : st.server.conns < n := by
    have hsub : st.peers.toFinset ⊆ (Finset.range n).erase i := fun j hj =>
      Finset.mem_erase.mpr ⟨fun heq => hnew (heq ▸ List.mem_toFinset.mp hj),
        Finset.mem_range.mpr (h.below j (List.mem_toFinset.mp hj))⟩
    have hcard := Finset.card_le_card hsub
    rw [List.toFinset_card_of_nodup h.course.nodup,
      Finset.card_erase_of_mem (Finset.mem_range.mpr hi),
      Finset.card_range, h.course.length] at hcard
    omega
  refine ⟨.request i, _, trivial, hs, fun j hj => ?_, ?_⟩
  · rcases List.mem_append.mp hj with hj | hj
    · exact h.below j hj
    · exact List.mem_singleton.mp hj ▸ hi
  · have hleft := CmServer.left_request hlt
    exact Nat.add_lt_add_right (Nat.lt_of_lt_of_le (Nat.lt_add_of_pos_right (by decide)) hleft) _

/-- **The server serves a client** whose connection it has accepted. -/
theorem advances_establish (h : st.Underway n) (hpc : st.server.pc = .loop)
    (hserver : (st.session i).server = .accepted) : st.Advances n := by
  have hphase : (st.session i).server = st.server.restPhase (st.peers.idxOf i) :=
    CmServer.phase_quiet (by rw [hpc]; trivial)
  rw [hserver, CmServer.restPhase] at hphase
  split at hphase
  · rename_i hc
    split at hphase
    · cases hphase
    rename_i hnew
    have hnext : st.server.next (.getEvent (some (.established (st.peers.idxOf i)))) =
        some (st.server.dispatch (.established (st.peers.idxOf i))) :=
      CmServer.next_getEvent_iff.mpr ⟨hpc, h.serving.stop, ⟨hc, hnew⟩, rfl⟩
    refine h.advances_server (l := .getEvent (some (.established (st.peers.idxOf i)))) (Or.inr rfl)
      (fun hreq => by cases hreq) hnext (CmServer.left_establish hc hnew) fun c a hio => ?_
    obtain ⟨j, hj, -, hidx⟩ := h.exists_peer hc
    simp only [CmServer.io, hpc, CmEvent.established] at hio
    cases hio
    have hji : j = i := by
      have hmem : i ∈ st.peers := List.idxOf_lt_length_iff.mp (h.course.length ▸ hc)
      exact (List.idxOf_inj hmem).mp hidx.symm |>.symm
    subst hji
    have haccepted : (st.conns j).accepted = true :=
      (h.exchanged j).accepted.mpr (by rw [hserver]; decide)
    exact ⟨j, st.conns j, hj, if_pos haccepted⟩
  · cases hphase

/-- At its loop, the server has no handler running for a client. -/
theorem phase_of_loop (h : st.Underway n) (hpc : st.server.pc = .loop) (i : ℕ) :
    i ∉ st.peers ∧ (st.session i).server = .fresh ∨
      (st.session i).server = .accepted ∨ (st.session i).server = .finished := by
  have hphase : (st.session i).server = st.server.restPhase (st.peers.idxOf i) :=
    CmServer.phase_quiet (by rw [hpc]; trivial)
  by_cases hmem : i ∈ st.peers
  · have hc : st.peers.idxOf i < st.server.conns :=
      h.course.length ▸ List.idxOf_lt_length_of_mem hmem
    by_cases hev : CmEvent.established (st.peers.idxOf i) ∈ st.server.events
    · exact Or.inr (Or.inr (hphase.trans (CmServer.restPhase_finished hc hev)))
    · exact Or.inr (Or.inl (hphase.trans (CmServer.restPhase_accepted hc hev)))
  · refine Or.inl ⟨hmem, hphase.trans (if_neg ?_)⟩
    rw [List.idxOf_eq_length hmem, h.course.length]
    exact Nat.lt_irrefl _

/-- **A client that waits for a completion**, with the server at its loop: what it waits for is on
its way, or the server has its connection to serve. -/
theorem advances_completion (h : st.Underway n) (hpc : st.server.pc = .loop) (hi : i < n)
    (hclient : (st.session i).client = .sent ∨ (st.session i).client = .half)
    (hcq : ((st.conns i).msg.ends .client).cq = []) : st.Advances n := by
  have hex := h.exchanged i
  have hpolls := hex.polls_eq hcq
  have hsends : ((st.session i).counts .client).sends = 1 := by
    change (st.session i).client.counts.sends = 1
    rcases hclient with hc | hc <;> rw [hc] <;> rfl
  have hle : ((st.session i).counts .client).polls ≤ 1 := by
    change (st.session i).client.counts.polls ≤ 1
    rcases hclient with hc | hc <;> rw [hc] <;> decide
  by_cases hacked : ((st.session i).conn.msg.ends .client).acked = 0
  · obtain ⟨ev, msg, hok, hnext, hlt, hother⟩ := hex.exists_device hsends hacked
    exact h.advances_device hi hok hnext hlt hother
  -- its own message has completed, so the reply has not arrived
  have hasked : (st.session i).client.Asked ∧ (st.session i).client ≠ .asked := by
    rcases hclient with hc | hc <;> rw [hc] <;> decide
  have haccepted := hex.accepted.mp (hex.opened hasked.1 hasked.2)
  rcases h.phase_of_loop hpc i with ⟨-, hfresh⟩ | hserver | hserver
  · exact absurd hfresh haccepted.1
  · exact h.advances_establish hpc hserver
  · have hcounts : ((st.session i).counts .server).sends = 1 := by
      change (st.session i).server.counts.sends = 1
      rw [hserver]
      rfl
    have hle' := hex.acked_le .server
    change _ ≤ ((st.session i).conn.msg.ends .client).executed at hle'
    obtain ⟨ev, msg, hok, hnext, hlt, hother⟩ := hex.exists_device hcounts (by omega)
    exact h.advances_device hi hok hnext hlt hother

/-- **A client that is not at its end** can go on, or be served, or what it waits for is on
its way. -/
theorem advances_waiting (h : st.Underway n) (hpc : st.server.pc = .loop) (hi : i < n) {k : ℕ}
    (hk : k < 19) (hplace : st.clients i = CmClient.place k) : st.Advances n := by
  have hphase : (st.session i).client = (CmClient.place k).phase := congrArg CmClient.phase hplace
  rw [CmClient.phase_place k (by omega)] at hphase
  by_cases hpoll : (k = 16 ∨ k = 17) ∧ ((st.conns i).msg.ends .client).cq = []
  · refine h.advances_completion hpc hi ?_ hpoll.2
    rcases hpoll.1 with rfl | rfl
    · exact Or.inl hphase
    · exact Or.inr hphase
  by_cases h14 : k = 14 ∧ (st.conns i).accepted = false
  · obtain ⟨rfl, haccepted⟩ := h14
    rcases h.phase_of_loop hpc i with ⟨hnew, -⟩ | hserver | hserver
    · have hasked := CmClient.connectAsked_place 14 (by decide)
      exact h.advances_request hpc hi (hplace ▸ hasked) hnew
    · exact h.advances_establish hpc hserver
    · have := (h.exchanged i).accepted.mpr (by rw [hserver]; decide)
      exact absurd (haccepted.symm.trans this) Bool.false_ne_true
  · refine h.advances_place hi hk hplace (fun heq => ?_) fun hp hcq => hpoll ⟨hp, hcq⟩
    exact (Bool.not_eq_false _).mp fun hfalse => h14 ⟨heq, hfalse⟩

/-- **Something is left to do** until the server is at its loop and every client at its end. -/
theorem advances (h : st.Underway n)
    (hgoal : ¬(st.server.pc = .loop ∧ ∀ i < n, st.clients i = CmClient.place 19)) :
    st.Advances n := by
  by_cases hpc : st.server.pc = .loop
  · obtain ⟨i, hi, hne⟩ : ∃ i < n, st.clients i ≠ CmClient.place 19 := by
      by_contra hno
      push Not at hno
      exact hgoal ⟨hpc, hno⟩
    obtain ⟨k, hk, hplace⟩ := h.places i
    have hlt : k < 19 := by
      refine lt_of_le_of_ne (by omega) fun heq => hne ?_
      rw [hplace, heq]
    exact h.advances_waiting hpc hi hlt hplace
  · exact h.advances_handler hpc

theorem start : CmNet.start.Underway n where
  reach := Lts.Reach.of_init rfl
  serving := ⟨trivial, rfl⟩
  places := fun _ => ⟨0, by decide, rfl⟩
  below := fun _ hi => absurd hi List.not_mem_nil

/-- **Where an orderly run has led**, it goes on. -/
theorem of_reach (h : cmNetLts.Reach CmNetOrderly st) (hbelow : ∀ i ∈ st.peers, i < n) :
    st.Underway n := by
  obtain ⟨m, hm⟩ : ∃ m, st.Underway m := by
    refine h.invariant (I := fun st => ∃ m, st.Underway m) (fun a ha => ?_)
      fun a l b ⟨m, hm⟩ hok hs => ?_
    · obtain rfl : a = CmNet.start := ha
      exact ⟨0, start⟩
    · obtain ⟨m', hm'⟩ := b.exists_bound
      have hmax : a.Underway (max m m') :=
        ⟨hm.reach, hm.serving, hm.places, fun i hi => lt_max_of_lt_left (hm.below i hi)⟩
      exact ⟨_, hmax.step hok hs fun i hi => lt_max_of_lt_right (hm' i hi)⟩
  exact ⟨h, hm.serving, hm.places, hbelow⟩

end CmNet.Underway

/-- **A client that has its reply**: it is at its loop again, with the reply of the server in its
buffer. -/
structure CmNet.Replied (st : CmNet) (i : ℕ) : Prop where
  pc : (st.clients i).pc = .loop
  established : CmEventType.established ∈ (st.clients i).events
  settled : ((st.conns i).msg.ends .client).Settled
  reply : ∃ r ∈ (st.conns i).said .server,
    Stream.window (((st.conns i).msg.ends .client).mem .recvBuf) 0 r.length = r

/-- **From every state of an orderly run**, and for any number of clients, the run can go on until
the server is at its loop and each of the clients has its reply. -/
theorem cm_reply {st : CmNet} (h : cmNetLts.Reach CmNetOrderly st) (n : ℕ) : ∃ st',
    cmNetLts.Path CmNetOrderly st st' ∧ st'.server.pc = .loop ∧ ∀ i < n, st'.Replied i := by
  obtain ⟨m, hm⟩ := st.exists_bound
  have hunderway : st.Underway (max n m) :=
    CmNet.Underway.of_reach h fun i hi => lt_max_of_lt_right (hm i hi)
  obtain ⟨st', hpath, hend, hpc, hplaces⟩ : ∃ st', cmNetLts.Path CmNetOrderly st st' ∧
      st'.Underway (max n m) ∧
      (st'.server.pc = .loop ∧ ∀ i < max n m, st'.clients i = CmClient.place 19) := by
    refine Lts.Path.exists_goal (CmNet.left (max n m)) (fun a ha hgoal => ?_) hunderway
    obtain ⟨l, b, hok, hs, hbelow, hlt⟩ := ha.advances hgoal
    exact ⟨l, b, hok, hs, ha.step hok hs hbelow, hlt⟩
  refine ⟨st', hpath, hpc, fun i hi => ?_⟩
  have hplace := hplaces i (lt_max_of_lt_left hi)
  have hphase : (st'.session i).client = .finished :=
    (congrArg CmClient.phase hplace).trans (CmClient.phase_place 19 (by decide))
  exact ⟨hplace ▸ rfl, hplace ▸ by decide, ((hend.exchanged i).settled hphase).1, cmMessage .server,
    (hend.exchanged i).answered hphase⟩

/-- Two clients are connected, and the server spins in its handler for the second. -/
def CmNet.twoAsked : List CmNetLabel :=
  List.replicate 4 (.server (.call true)) ++ askSteps 0 ++ askSteps 1 ++ acceptSteps 1 ++
    acceptSteps 0 ++ [.client 0 (.getEvent (some .established)),
      .server (.getEvent (some (.established 1))), .server (.poll .empty .success)]

/-- They and a third client get their replies. -/
theorem cm_reply_twoAsked : ∃ st st', (cmNetLts.Reach CmNetOrderly st ∧
      st.server.pc = .established .pollRecv 1) ∧
    cmNetLts.Path CmNetOrderly st st' ∧ st'.server.pc = .loop ∧ ∀ i < 3, st'.Replied i := by
  have hrun : (Lts.exec CmNet.next CmNetOrderly CmNet.start CmNet.twoAsked).map
      (fun st => st.server.pc) = some (CmServerPc.established .pollRecv 1) := by
    decide +kernel
  obtain ⟨st, hexec, hpc⟩ := Option.map_eq_some_iff.mp hrun
  have hreach : cmNetLts.Reach CmNetOrderly st := ⟨CmNet.start, rfl, Lts.path_of_exec hexec⟩
  obtain ⟨st', hreply⟩ := cm_reply hreach 3
  exact ⟨st, st', ⟨hreach, hpc⟩, hreply⟩

/-! ### The first DISCONNECTED -/

/-- **The server is on its way out**: in the handler of DISCONNECTED, or behind the loop. -/
def CmServer.Leaving (s : CmServer) : Prop :=
  match s.pc with
  | .disconnect _ _ => True
  | .loop => s.stop = true
  | .destroyListener => True
  | .destroyChannel => True
  | .done => True
  | _ => False

namespace CmServer

variable {s s' : CmServer} {l : CmLabel}

/-- A server on its way out does nothing with a connection, and takes up none. -/
theorem Leaving.next (h : s.Leaving) (hs : s.next l = some s') :
    s'.Leaving ∧ s.io l = none ∧ ¬l.IsRequest := by
  obtain ⟨pc, stop, conns, events, log⟩ := s
  cases pc with
  | disconnect p c =>
    cases l with
    | cpu =>
      obtain rfl := Option.some.inj hs
      cases p with
      | destroyId => exact ⟨rfl, rfl, id⟩
      | _ => exact ⟨trivial, rfl, id⟩
    | _ => cases hs
  | loop =>
    obtain rfl : stop = true := h
    cases l with
    | cpu => exact Option.some.inj hs ▸ ⟨trivial, rfl, id⟩
    | getEvent ev => cases ev <;> cases hs
    | _ => cases hs
  | destroyListener | destroyChannel =>
    cases l with
    | cpu => exact Option.some.inj hs ▸ ⟨trivial, rfl, id⟩
    | _ => cases hs
  | done => cases hs
  | _ => exact h.elim

/-- **A DISCONNECTED sends the server out.** -/
theorem leaving_step (h : ∀ c, ⟨.disconnected, .conn c⟩ ∈ s.events → s.Leaving)
    (hs : s.next l = some s') {c : ℕ} (hc : ⟨.disconnected, .conn c⟩ ∈ s'.events) : s'.Leaving := by
  by_cases hold : ⟨.disconnected, .conn c⟩ ∈ s.events
  · exact ((h c hold).next hs).1
  · by_cases hl : ∃ ev, l = .getEvent (some ev)
    · obtain ⟨ev, rfl⟩ := hl
      obtain ⟨-, -, -, rfl⟩ := next_getEvent_iff.mp hs
      have hevents : (s.dispatch ev).events = s.events ++ [ev] := by
        unfold dispatch
        split <;> rfl
      rw [hevents, List.mem_append, List.mem_singleton, or_iff_right hold] at hc
      exact hc ▸ trivial
    · rw [next_events hs fun ev heq => hl ⟨ev, heq⟩] at hc
      exact absurd hc hold

end CmServer

/-- A client does not accept its connection. -/
theorem CmClient.io_ne_accept (s : CmClient) (l : ClientLabel) : s.io l ≠ some .accept := by
  unfold CmClient.io
  split <;> simp

namespace CmNet

variable {st st' : CmNet}

theorem leaving_of_reach {ok : CmNet → CmNetLabel → Prop} (h : cmNetLts.Reach ok st) {c : ℕ}
    (hc : ⟨.disconnected, .conn c⟩ ∈ st.server.events) : st.server.Leaving := by
  refine h.invariant (I := fun st => ∀ c, ⟨.disconnected, .conn c⟩ ∈ st.server.events →
    st.server.Leaving)
    ?_ ?_ c hc
  · rintro _ rfl c hc
    exact absurd hc List.not_mem_nil
  · intro a l b ha _ hs c hc
    rcases next_cases hs with ⟨l', rfl, hnext, -⟩ | ⟨i, rfl, hnext, -⟩ |
      ⟨i, l', c', rfl, -, -, hserver⟩ |
      ⟨i, s, ev, rfl, -, hserver⟩
    · exact CmServer.leaving_step ha hnext hc
    · exact CmServer.leaving_step ha hnext hc
    · rw [hserver] at hc ⊢
      exact ha c hc
    · rw [hserver] at hc ⊢
      exact ha c hc

/-- What the server does for a client is the same in both states. -/
def SameService (st st' : CmNet) (i : ℕ) : Prop :=
  (st'.conns i).accepted = (st.conns i).accepted ∧
  (st'.conns i).said .server = (st.conns i).said .server

/-- A client does nothing in the place of the server. -/
theorem sameService_act {i j : ℕ} {a : CmAct} (hj : a ≠ .accept)
    (h : st.act i .client a = some st') :
    st.SameService st' j := by
  obtain ⟨k, hk, rfl⟩ := act_eq_some h
  rcases eq_or_ne j i with rfl | hne
  · rw [SameService, conns_setConn_self]
    cases a with
    | accept => exact absurd rfl hj
    | receive => exact Option.some.inj hk ▸ ⟨rfl, rfl⟩
    | connect => exact Option.some.inj hk ▸ ⟨rfl, rfl⟩
    | established =>
      simp only [CmConn.act] at hk
      split at hk
      · exact Option.some.inj hk ▸ ⟨rfl, rfl⟩
      · cases hk
    | send ok =>
      obtain rfl := Option.some.inj hk
      cases ok <;> exact ⟨rfl, rfl⟩
    | poll status =>
      simp only [CmConn.act, CmConn.poll] at hk
      split at hk
      · cases hk
      · split at hk
        · exact Option.some.inj hk ▸ ⟨rfl, rfl⟩
        · cases hk
  · rw [SameService, conns_setConn_of_ne _ hne]
    exact ⟨rfl, rfl⟩

/-- **A server on its way out serves nobody.** -/
theorem sameService_step {l : CmNetLabel} (h : st.server.Leaving) (hs : st.next l = some st')
    (j : ℕ) :
    st'.server.Leaving ∧ st.SameService st' j := by
  cases l with
  | server l =>
    simp only [next] at hs
    split at hs
    · cases hs
    · obtain ⟨s', hnext, hs⟩ := Option.bind_eq_some_iff.mp hs
      obtain ⟨hleaving, hio, -⟩ := h.next hnext
      rw [hio] at hs
      exact Option.some.inj hs ▸ ⟨hleaving, rfl, rfl⟩
  | request i =>
    simp only [next] at hs
    split at hs
    · obtain ⟨s', hnext, -⟩ := Option.map_eq_some_iff.mp hs
      exact absurd rfl (h.next hnext).2.2
    · cases hs
  | client i l =>
    obtain ⟨c', -, hs⟩ := Option.bind_eq_some_iff.mp hs
    have hio := (st.clients i).io_ne_accept l
    dsimp only at hs
    split at hs
    · exact Option.some.inj hs ▸ ⟨h, rfl, rfl⟩
    · rename_i a ha
      have hsame := sameService_act (j := j) (fun heq => hio (heq ▸ ha)) hs
      obtain ⟨k, -, rfl⟩ := act_eq_some hs
      exact ⟨h, hsame⟩
  | device i s ev =>
    obtain ⟨msg, -, rfl⟩ := Option.map_eq_some_iff.mp hs
    refine ⟨h, ?_⟩
    rcases eq_or_ne j i with rfl | hne
    · rw [SameService, conns_setConn_self]
      exact ⟨rfl, rfl⟩
    · rw [SameService, conns_setConn_of_ne _ hne]
      exact ⟨rfl, rfl⟩

end CmNet

/-- **The first DISCONNECTED ends the service for every client**: in every run in which nothing
fails, once the server has fetched it, no connection is accepted and no reply is sent, and a client
to which the server has sent no reply never comes to print one. -/
theorem cm_disconnected {st st' : CmNet} {c : ℕ} (h : cmNetLts.Reach CmNetNoFailure st)
    (hc : ⟨.disconnected, .conn c⟩ ∈ st.server.events) (hp : cmNetLts.Path CmNetNoFailure st st')
    (i : ℕ) :
    st.SameService st' i ∧
      ((st.conns i).said .server = [] → (st'.clients i).pc ≠ .established .disconnect) := by
  have hsame : st'.server.Leaving ∧ st.SameService st' i := by
    refine hp.invariant (I := fun b => b.server.Leaving ∧ st.SameService b i)
      ⟨CmNet.leaving_of_reach h hc, rfl, rfl⟩ fun a l b ⟨hleaving, hsame⟩ _ hs => ?_
    obtain ⟨hleaving', hsame'⟩ := CmNet.sameService_step hleaving hs i
    exact ⟨hleaving', hsame'.1.trans hsame.1, hsame'.2.trans hsame.2⟩
  refine ⟨hsame.2, fun hnone hpc => ?_⟩
  have hreach := h.trans hp
  have hphase : (st'.session i).client = .finished := by
    change (st'.clients i).phase = _
    simp only [CmClient.phase, hpc]
  have hex : (st'.session i).Exchanged :=
    CmSession.exchanged_of_reach ((CmNet.session_reach hreach).2 i)
  have hsaid : cmMessage .server ∈ (st'.conns i).said .server := (hex.answered hphase).1
  rw [hsame.2.2, hnone] at hsaid
  exact absurd hsaid List.not_mem_nil

/-- Two clients are connected when the server fetches the DISCONNECTED of the first one. -/
def CmNet.leftAlone : List CmNetLabel :=
  List.replicate 4 (.server (.call true)) ++ askSteps 0 ++ askSteps 1 ++ acceptSteps 0 ++
    acceptSteps 1 ++
    [.server (.getEvent (some ⟨.disconnected, .conn 0⟩))]

theorem cm_disconnected_alone : ∃ st, (cmNetLts.Reach CmNetNoFailure st ∧
    ⟨.disconnected, .conn 0⟩ ∈ st.server.events ∧ (st.conns 1).accepted = true ∧
      (st.conns 1).said .server = []) ∧
    st.SameService st 1 ∧ ((st.conns 1).said .server = [] →
      (st.clients 1).pc ≠ .established .disconnect) := by
  have hrun : (Lts.exec CmNet.next CmNetNoFailure CmNet.start CmNet.leftAlone).map (fun st =>
      (decide (⟨.disconnected, .conn 0⟩ ∈ st.server.events), (st.conns 1).accepted,
        (st.conns 1).said .server)) =
        some (true, true, []) := by
    decide +kernel
  obtain ⟨st, hexec, hview⟩ := Option.map_eq_some_iff.mp hrun
  obtain ⟨hevent, hview⟩ := Prod.mk.inj hview
  obtain ⟨haccepted, hsaid⟩ := Prod.mk.inj hview
  have hreach : cmNetLts.Reach CmNetNoFailure st := ⟨CmNet.start, rfl, Lts.path_of_exec hexec⟩
  exact ⟨st, ⟨hreach, of_decide_eq_true hevent, haccepted, hsaid⟩,
    cm_disconnected hreach (of_decide_eq_true hevent) (Lts.Path.refl st) 1⟩

end RdmaBook
