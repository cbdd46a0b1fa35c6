import RdmaBook.Program.Bench

/-!
# The programs follow their scripts

`RdmaBook.syncLts` takes a process for the list of the calls it has still to make: it is the model
in which two processes meet. Here the mains are shown to be such processes. The records they
exchange, by their sizes, the transitions of their queue pairs and the bytes they write and read are
at every moment of every run the first ones of `RdmaBook.SyncProgram.script`, and all of them at the
end; and where a work request is posted or a completion is polled, the script has come to its data
phase, so the barrier is behind the process and its queue pairs are up
(`RdmaBook.Host.mains_follow`).
-/

namespace RdmaBook

/-- `is_server`. -/
def Side.isServer : Side → Bool
  | .client => false
  | .server => true

/-- The call that is made, with the size of its record; the data phase is none. -/
def SetupCall.hostCall : SetupCall → Option HostCall
  | .writeAll bytes => some (.writeRecord bytes.length)
  | .readAll remaining => some (.readRecord remaining)
  | .write record => some (.writeRecord record.length)
  | .read size => some (.readRecord size)
  | .modify qp stage => some (.modifyQp qp stage)
  | .syncWrite => some .writeByte
  | .syncRead => some .readByte
  | .run => none
  | .doneRead => some .readByte

namespace Host

open CallSpec CallSpec.Triple

/-- A call is one of a script, one of the data phase, or neither. -/
inductive CallKind
  | setup
  | data
  | other
  deriving DecidableEq

/-- What a call is to a script. -/
def callKind : HostCall → CallKind
  | .writeRecord _ | .readRecord _ | .modifyQp _ _ | .writeByte | .readByte => .setup
  | .postRecv _ _ | .postSend _ _ | .postUdSend _ _ | .pollCq | .pollCqs => .data
  | _ => .other

/-- The calls of a script that have been made. -/
def setupCalls (t : List (Prog.Event HostCall.Result)) : List HostCall :=
  (t.map Sigma.fst).filter fun e => callKind e = .setup

/-- **A program follows a script**: the calls of the script that it has made are always the first
ones, and all of them when it has returned; and it is in the data phase of the script when it makes
a call of one. -/
structure Follows (p : HostProg Unit) (script : List SetupCall) : Prop where
  order : ∀ t o, p.Runs t o → setupCalls t <+: script.filterMap SetupCall.hostCall
  all : ∀ t, p.Runs t (.returned ()) → setupCalls t = script.filterMap SetupCall.hostCall
  data : ∀ t x o, p.Runs (t ++ [x]) o → callKind x.1 = .data →
    ∃ done rest, script = done ++ .run :: rest ∧ setupCalls t = done.filterMap SetupCall.hostCall

/-! ### A script as a state -/

/-- What is left of a script behind a call; the data phase ends with the next call of the script. -/
def scriptNext (todo : List SetupCall) (e : HostCall) : Option (List SetupCall) :=
  match callKind e with
  | .setup =>
    match todo with
    | .run :: c :: rest => if c.hostCall = some e then some rest else none
    | c :: rest => if c.hostCall = some e then some rest else none
    | [] => none
  | .data => if todo.head? = some .run then some todo else none
  | .other => some todo

/-- The calls of a script, by what is left of it. -/
def scriptSpec : CallSpec HostCall.Result (List SetupCall) where
  Allows todo e := (scriptNext todo e).isSome = true
  Gives _ _ _ := True
  next todo e _ := (scriptNext todo e).getD todo

/-- A script without its data phase. -/
def IsDone (todo : List SetupCall) : Prop := todo.filterMap SetupCall.hostCall = []

section Script

variable {todo todo' : List SetupCall}

theorem scriptNext_split {e : HostCall} (h : scriptNext todo e = some todo') :
    ∃ done, todo = done ++ todo' ∧
      done.filterMap SetupCall.hostCall = [e].filter fun e => callKind e = .setup := by
  unfold scriptNext at h
  split at h
  · rename_i hkind
    have hfilter : ([e].filter fun e => callKind e = .setup) = [e] := by simp [hkind]
    rw [hfilter]
    split at h
    · rename_i c rest
      obtain ⟨hcall, h⟩ := Option.ite_none_right_eq_some.mp h
      obtain rfl := Option.some.inj h
      exact ⟨[.run, c], rfl, (List.filterMap_cons_none rfl).trans (List.filterMap_cons_some hcall)⟩
    · rename_i c rest _
      obtain ⟨hcall, h⟩ := Option.ite_none_right_eq_some.mp h
      obtain rfl := Option.some.inj h
      exact ⟨[c], rfl, List.filterMap_cons_some hcall⟩
    · cases h
  · rename_i hkind
    obtain ⟨-, h⟩ := Option.ite_none_right_eq_some.mp h
    obtain rfl := Option.some.inj h
    exact ⟨[], rfl, by simp [hkind]⟩
  · rename_i hkind
    obtain rfl := Option.some.inj h
    exact ⟨[], rfl, by simp [hkind]⟩

/-- **What has been made and what is left** are the script. -/
theorem setup_split {t : List (Prog.Event HostCall.Result)} (h : scriptSpec.Right todo t) :
    ∃ done, todo = done ++ scriptSpec.after todo t ∧
      setupCalls t = done.filterMap SetupCall.hostCall := by
  induction t generalizing todo with
  | nil => exact ⟨[], rfl, rfl⟩
  | cons x t ih =>
    obtain ⟨e, r⟩ := x
    obtain ⟨hallows, hrest⟩ := h
    obtain ⟨todo₁, hnext⟩ := Option.isSome_iff_exists.mp hallows
    have hstep : scriptSpec.next todo e r = todo₁ := by
      change (scriptNext todo e).getD todo = todo₁
      rw [hnext]
      rfl
    obtain ⟨done, rfl, hdone⟩ := scriptNext_split hnext
    rw [hstep] at hrest
    obtain ⟨done', hsplit, hcalls⟩ := ih hrest
    refine ⟨done ++ done', ?_, ?_⟩
    · change done ++ todo₁ = done ++ done' ++ scriptSpec.after (scriptSpec.next _ e r) t
      rw [hstep, List.append_assoc, ← hsplit]
    · rw [List.filterMap_append, ← hcalls, hdone, setupCalls, List.map_cons,
        ← List.singleton_append, List.filter_append]
      rfl

theorem Follows.of_triple {p : HostProg Unit} {script : List SetupCall}
    (h : scriptSpec.Triple (· = script) p fun _ todo => IsDone todo) : Follows p script := by
  have hreal : ∀ (todo : List SetupCall) (t : List (Prog.Event HostCall.Result)),
      scriptSpec.Real todo t := by
    intro todo t
    induction t generalizing todo with
    | nil => trivial
    | cons x t ih => exact ⟨trivial, ih _⟩
  constructor
  · intro t o hrun
    obtain ⟨done, hsplit, hcalls⟩ := setup_split (h _ t o rfl hrun (hreal _ t)).1
    rw [hcalls, hsplit, List.filterMap_append]
    exact List.prefix_append _ _
  · intro t hrun
    obtain ⟨hright, hret⟩ := h _ t _ rfl hrun (hreal _ t)
    obtain ⟨done, hsplit, hcalls⟩ := setup_split hright
    have hdone : (scriptSpec.after script t).filterMap SetupCall.hostCall = [] := hret () rfl
    conv_rhs => rw [hsplit, List.filterMap_append, hdone, List.append_nil]
    exact hcalls
  · intro t x o hrun hkind
    obtain ⟨hright, hlast⟩ := right_append.mp (h _ _ o rfl hrun (hreal _ _)).1
    obtain ⟨done, hsplit, hcalls⟩ := setup_split hright
    have hrun' : (scriptNext (scriptSpec.after script t) x.1).isSome = true := hlast.1
    simp only [scriptNext, hkind] at hrun'
    obtain ⟨rest, hrest⟩ : ∃ rest, scriptSpec.after script t = .run :: rest := by
      by_cases hhead : (scriptSpec.after script t).head? = some .run
      · exact List.head?_eq_some_iff.mp hhead
      · simp [hhead] at hrun'
    exact ⟨done, rest, by rw [← hrest]; exact hsplit, hcalls⟩

end Script

/-! ### Programs without calls of a script -/

/-- No call of the program is one of a script. -/
abbrev NoSetup {α : Type} (p : HostProg α) : Prop := p.All fun e => callKind e ≠ .setup

/-- Nor is one of a data phase. -/
abbrev NoData {α : Type} (p : HostProg α) : Prop := p.All fun e => callKind e = .other

section Silent

variable {α : Type}

theorem noData_triple {p : HostProg α} (h : NoData p) (todo : List SetupCall) :
    scriptSpec.Triple (· = todo) p fun _ todo' => todo' = todo := by
  refine Triple.of_all (h.mono fun e he => ?_)
  have hnext : scriptNext todo e = some todo := by simp only [scriptNext, he]
  refine ⟨Option.isSome_iff_exists.mpr ⟨todo, hnext⟩, fun r => ?_⟩
  change (scriptNext todo e).getD todo = todo
  rw [hnext]
  rfl

/-- **In the data phase**, nothing is taken from the script. -/
theorem noSetup_triple {p : HostProg α} (h : NoSetup p) (rest : List SetupCall) :
    scriptSpec.Triple (· = .run :: rest) p fun _ todo' => todo' = .run :: rest := by
  refine Triple.of_all (h.mono fun e he => ?_)
  have hnext : scriptNext (.run :: rest) e = some (.run :: rest) := by
    cases hkind : callKind e with
    | setup => exact absurd hkind he
    | data => simp only [scriptNext, hkind, List.head?_cons, if_true]
    | other => simp only [scriptNext, hkind]
  refine ⟨Option.isSome_iff_exists.mpr ⟨_, hnext⟩, fun r => ?_⟩
  change (scriptNext (.run :: rest) e).getD _ = _
  rw [hnext]
  rfl

theorem openDevice_noData (devName : Option String) : NoData (openDevice devName) := by
  have hopen : ∀ i, NoData (do
      let _ ← call (.getDeviceName i)
      let ctx ← call (.openDevice i)
      if ctx = false then
        let _ ← call (.getDeviceName i)
      call .freeDeviceList
      pure (if ctx = true then some i else none) : HostProg (Option ℕ)) := fun i =>
    ⟨rfl, fun _ => ⟨rfl, fun ctx => Prog.All.ite ⟨rfl, fun _ => ⟨rfl, fun _ => trivial⟩⟩
      ⟨rfl, fun _ => trivial⟩⟩⟩
  refine ⟨rfl, fun r => ?_⟩
  rcases r with _ | _ | n
  · trivial
  · exact ⟨rfl, fun _ => trivial⟩
  · cases devName with
    | none =>
      refine ⟨trivial, fun dev => ?_⟩
      cases dev with
      | none => exact ⟨rfl, fun _ => trivial⟩
      | some i => exact hopen i
    | some name =>
      refine ⟨findDevice_all fun _ => rfl, fun dev => ?_⟩
      cases dev with
      | none => exact ⟨rfl, fun _ => trivial⟩
      | some i => exact hopen i

theorem tryAddrs_noData (k left : ℕ) : NoData (tryAddrs k left) := by
  induction left generalizing k with
  | zero => trivial
  | succ left ih =>
    refine ⟨rfl, fun ok => Prog.All.ite (ih (k + 1)) ⟨rfl, fun ok => Prog.All.ite trivial ?_⟩⟩
    exact ⟨rfl, fun _ => ih (k + 1)⟩

theorem tcpServerListen_noData : NoData tcpServerListen := by
  refine ⟨rfl, fun ok => Prog.All.ite trivial ⟨rfl, fun _ => ⟨rfl, fun ok => ?_⟩⟩⟩
  refine Prog.All.ite ⟨rfl, fun _ => trivial⟩ ⟨rfl, fun ok => ?_⟩
  exact Prog.All.ite ⟨rfl, fun _ => trivial⟩ trivial

theorem connectTcp_noData (isServer : Bool) : NoData (connectTcp isServer) := by
  cases isServer with
  | true =>
    exact checked_bind_all tcpServerListen_noData
      (checked_bind_all (rfl : callKind .accept = .other) rfl)
  | false =>
    refine checked_all ⟨rfl, fun r => ?_⟩
    cases r with
    | none => trivial
    | some n => exact ⟨tryAddrs_noData 0 n, fun _ => ⟨rfl, fun _ => trivial⟩⟩

theorem giveBack_noData (o : HostObj) : NoData (giveBack o) := by
  cases o with
  | mem b => exact (rfl : callKind (.free b) = .other)
  | _ => exact ⟨rfl, fun _ => trivial⟩

theorem releaseAll_noData (os : List HostObj) : NoData (releaseAll os) := by
  induction os with
  | nil => trivial
  | cons o os ih => exact ⟨giveBack_noData o, fun _ => ih⟩

theorem createPdCqQp_noData : NoData createPdCqQp :=
  checked_bind_all rfl (checked_bind_all rfl (checked_all rfl))

theorem registerBuf_noData (b : HostBuf) : NoData (registerBuf b) :=
  checked_bind_all rfl (checked_all rfl)

theorem getLocalInfo_noData : NoData getLocalInfo := ⟨rfl, fun _ => Prog.All.ite trivial rfl⟩

theorem data_ne_setup {e : HostCall} (h : callKind e = .data) : callKind e ≠ .setup := by
  rw [h]
  decide

theorem NoData.noSetup {p : HostProg α} (h : NoData p) : NoSetup p :=
  h.mono fun e he => by
    rw [he]
    decide

theorem awaitCompletion_noSetup : NoSetup awaitCompletion := by
  refine checked_all ⟨data_ne_setup rfl, fun r => ?_⟩
  obtain ⟨ne, ok⟩ := r
  cases ne with
  | failed => trivial
  | empty => trivial
  | one => trivial

theorem postReceive_noSetup (b : HostBuf) : NoSetup (postReceive b) :=
  checked_all (data_ne_setup rfl)

theorem postSend_noSetup (b : HostBuf) : NoSetup (postSend b) := checked_all (data_ne_setup rfl)

end Silent

/-! ### The setup -/

section Setup

variable {rest : List SetupCall}

/-- A call of the script, and what comes behind it. -/
theorem at_setup {todo todo' : List SetupCall} {β : Type} {e : HostCall} {f : e.Result → HostProg β}
    {R : β → List SetupCall → Prop} (h : scriptNext todo e = some todo')
    (hf : ∀ r, scriptSpec.Triple (· = todo') (f r) R) :
    scriptSpec.Triple (· = todo) (call e >>= f) R := by
  refine at_call (Option.isSome_iff_exists.mpr ⟨todo', h⟩) fun r _ => ?_
  change scriptSpec.Triple (· = (scriptNext todo e).getD todo) (f r) R
  rw [h]
  exact hf r

/-- The last one. -/
theorem last_setup {todo todo' : List SetupCall} {e : HostCall}
    (h : scriptNext todo e = some todo') :
    scriptSpec.Triple (· = todo) (call e) fun _ todo'' => todo'' = todo' := by
  refine Triple.call (fun s hs => hs ▸ Option.isSome_iff_exists.mpr ⟨todo', h⟩) ?_
  rintro s r rfl -
  change (scriptNext s e).getD s = todo'
  rw [h]
  rfl

theorem scriptNext_of_hostCall {c : SetupCall} {e : HostCall} (hkind : callKind e = .setup)
    (h : c.hostCall = some e) : scriptNext (c :: rest) e = some rest := by
  cases c with
  | run => cases h
  | _ => simp only [scriptNext, hkind, h, if_true]

/-- The exchange of two records. -/
theorem exchangeInfo_script {size : ℕ} {c c' : SetupCall}
    (hc : c.hostCall = some (.writeRecord size)) (hc' : c'.hostCall = some (.readRecord size)) :
    scriptSpec.Triple (· = c :: c' :: rest) (exchangeInfo size)
      fun ok todo => ok = true → todo = rest := by
  refine at_setup (scriptNext_of_hostCall rfl hc) fun ok => ?_
  cases ok with
  | false => exact at_ret fun h => by cases h
  | true => exact (last_setup (scriptNext_of_hostCall rfl hc')).mono (fun _ => id) fun _ _ h _ => h

theorem bringUp_script (qp : ℕ) :
    scriptSpec.Triple (· = bringUpCalls qp ++ rest) (bringUp qp) fun _ todo => todo = rest := by
  refine at_setup (scriptNext_of_hostCall rfl rfl) fun ok => at_check fun _ => ?_
  refine at_setup (scriptNext_of_hostCall rfl rfl) fun ok => at_check fun _ => ?_
  exact at_bind (last_setup (scriptNext_of_hostCall rfl rfl))
    fun _ _ htodo => check_spec fun _ => htodo

theorem synchronize_script :
    scriptSpec.Triple (· = .syncWrite :: .syncRead :: rest) synchronize fun _ todo => todo = rest :=
  at_setup (scriptNext_of_hostCall rfl rfl) fun _ => last_setup (scriptNext_of_hostCall rfl rfl)

end Setup

/-! ### The programs -/

section Programs

variable (order : ByteOrder) (host : Side → SyncHost) (s : Side) (devName : Option String)

/-- `write_all` is given a whole record. -/
theorem writeAll_hostCall {order : ByteOrder} {host : RdmaBook.Host} (msg : OobMsg) :
    (SetupCall.writeAll (host.msg order msg)).hostCall = some (.writeRecord msg.size) :=
  congrArg (fun n => some (HostCall.writeRecord n)) (RdmaBook.Host.length_msg _ _ msg)

/-- `write` is given a whole record. -/
theorem write_hostCall {n : ℕ} (record : List.Vector UInt8 n) :
    (SetupCall.write record.toList).hostCall = some (.writeRecord n) :=
  congrArg (fun n => some (HostCall.writeRecord n)) record.toList_length

/-- **A `main` of chapter 9 follows a script**, if its parts do. -/
theorem tcpMain_follows (isServer : Bool) {resources exchange data cleanup : HostProg Unit}
    {script todo : List SetupCall}
    (hresources : scriptSpec.Triple (· = script) resources fun _ todo' => todo' = todo)
    (hexchange : scriptSpec.Triple (· = todo) exchange fun _ todo' => todo' = [.run])
    (hdata : NoSetup data) (hcleanup : NoSetup cleanup) :
    Follows (tcpMain devName isServer resources exchange data cleanup) script := by
  refine Follows.of_triple ?_
  refine at_bind (noData_triple (openDevice_noData devName) script) ?_
  rintro r _ rfl
  refine at_check fun _ => Triple.bind hresources fun _ => ?_
  refine Triple.bind (noData_triple (connectTcp_noData isServer) todo) fun _ => ?_
  refine Triple.bind hexchange fun _ => Triple.bind (noSetup_triple hdata []) fun _ => ?_
  refine (noSetup_triple hcleanup []).mono (fun _ => id) ?_
  rintro _ _ rfl
  rfl

theorem pingpongMain_follows (numIters : ℤ) :
    Follows (pingpongMain devName s.isServer numIters)
      ((SyncProgram.oob rcPingpong).script order host s) := by
  refine tcpMain_follows devName _ (noData_triple ?_ _) ?_ ?_ ?_
  · exact ⟨createPdCqQp_noData, fun _ => ⟨registerBuf_noData _, fun _ =>
      checked_all getLocalInfo_noData⟩⟩
  · refine at_bind (exchangeInfo_script (writeAll_hostCall .qp) rfl)
      fun ok todo htodo => at_check fun hok => ?_
    obtain rfl := htodo hok
    exact Triple.bind (bringUp_script 0) fun _ => synchronize_script
  · refine Prog.All.times fun _ => ?_
    cases s with
    | server => exact ⟨postReceive_noSetup _, fun _ => ⟨awaitCompletion_noSetup, fun _ =>
        ⟨postSend_noSetup _, fun _ => awaitCompletion_noSetup⟩⟩⟩
    | client => exact ⟨postReceive_noSetup _, fun _ => ⟨postSend_noSetup _, fun _ =>
        ⟨awaitCompletion_noSetup, fun _ => awaitCompletion_noSetup⟩⟩⟩
  · exact NoData.noSetup ⟨rfl, fun _ => releaseAll_noData _⟩

theorem oneSidedResources_noData : NoData oneSidedResources :=
  ⟨createPdCqQp_noData, fun _ => ⟨registerBuf_noData _, fun _ => ⟨registerBuf_noData _, fun _ =>
    checked_all getLocalInfo_noData⟩⟩⟩

theorem oneSidedExchange_script {order : ByteOrder} {host : RdmaBook.Host}
    {rest : List SetupCall} :
    scriptSpec.Triple
      (· = .writeAll (host.msg order .qp) :: .readAll OobMsg.qp.size ::
        .writeAll (host.msg order .mr) :: .readAll OobMsg.mr.size ::
        (bringUpCalls 0 ++ .syncWrite :: .syncRead :: rest)) oneSidedExchange
      fun _ todo => todo = rest := by
  refine at_bind (exchangeInfo_script (writeAll_hostCall .qp) rfl)
    fun ok todo htodo => at_check fun hok => ?_
  obtain rfl := htodo hok
  refine at_bind (exchangeInfo_script (writeAll_hostCall .mr) rfl)
    fun ok todo htodo => at_check fun hok => ?_
  obtain rfl := htodo hok
  exact Triple.bind (bringUp_script 0) fun _ => synchronize_script

theorem oneSidedCleanup_noSetup : NoSetup oneSidedCleanup :=
  NoData.noSetup ⟨rfl, fun _ => releaseAll_noData _⟩

theorem rdmaWriteMain_follows :
    Follows (rdmaWriteMain devName s.isServer)
      ((SyncProgram.oob rdmaWrite).script order host s) := by
  refine tcpMain_follows devName _ (noData_triple oneSidedResources_noData _)
    oneSidedExchange_script ?_ oneSidedCleanup_noSetup
  cases s with
  | server => exact ⟨postReceive_noSetup _, fun _ => awaitCompletion_noSetup⟩
  | client => exact ⟨postSend_noSetup _, fun _ => ⟨awaitCompletion_noSetup, fun _ =>
      ⟨postSend_noSetup _, fun _ => awaitCompletion_noSetup⟩⟩⟩

theorem rdmaReadMain_follows (magicOk : Bool) :
    Follows (rdmaReadMain devName s.isServer magicOk)
      ((SyncProgram.oob rdmaRead).script order host s) := by
  refine tcpMain_follows devName _ (noData_triple oneSidedResources_noData _)
    oneSidedExchange_script ?_ oneSidedCleanup_noSetup
  cases s with
  | server => exact ⟨postReceive_noSetup _, fun _ => awaitCompletion_noSetup⟩
  | client =>
    refine checked_bind_all (by decide : callKind (.acquire (.mr .localHdr)) ≠ .setup)
      ⟨postSend_noSetup _, fun _ => ⟨awaitCompletion_noSetup, fun _ => ⟨check_all magicOk, fun _ =>
        ⟨postSend_noSetup _, fun _ => ⟨awaitCompletion_noSetup, fun _ => ?_⟩⟩⟩⟩⟩
    exact ⟨postSend_noSetup _, fun _ => ⟨awaitCompletion_noSetup, fun _ =>
      (giveBack_noData _).noSetup⟩⟩

theorem udSendMain_follows (numMsgs : ℤ) :
    Follows (udSendMain devName s.isServer numMsgs) (SyncProgram.udSend.script order host s) := by
  have hresources : scriptSpec.Triple (· = SyncProgram.udSend.script order host s) udResources
      fun _ todo => todo =
        [.write (host s).udInfo.toList, .read udInfoSize, .syncWrite, .syncRead, .run] := by
    have hcalloc : NoData (Prog.times (fun i => do
        check (← call (.acquire (.mem (.recvBufs i))))) numRecvBufs) :=
      Prog.All.times fun _ => checked_all rfl
    have hfree : NoData (Prog.times (fun i => call (.free (.recvBufs i))) numRecvBufs) :=
      Prog.All.times fun _ => rfl
    have hquery : NoData (do
        check (← call .query)
        check (← call .query)) := checked_bind_all rfl (checked_all rfl)
    refine Triple.bind (noData_triple createPdCqQp_noData _) fun _ => ?_
    refine Triple.bind (noData_triple (registerBuf_noData _) _) fun _ => ?_
    refine Triple.bind (noData_triple hcalloc _) fun _ => ?_
    refine Triple.bind (noData_triple (registerBuf_noData _) _) fun _ => ?_
    refine Triple.bind (noData_triple hfree _) fun _ => ?_
    exact Triple.bind (bringUp_script 0) fun _ => noData_triple hquery _
  refine tcpMain_follows devName _ hresources ?_ ?_
    (NoData.noSetup ⟨rfl, fun _ => releaseAll_noData _⟩)
  · refine at_bind (exchangeInfo_script (write_hostCall (host s).udInfo) rfl)
      fun ok todo htodo => at_check fun hok => ?_
    obtain rfl := htodo hok
    exact synchronize_script
  · cases s with
    | server => exact ⟨Prog.All.times fun _ => postReceive_noSetup _, fun _ =>
        Prog.All.times fun _ => ⟨awaitCompletion_noSetup, fun _ => postReceive_noSetup _⟩⟩
    | client =>
      refine ⟨checked_all (by decide : callKind (.acquire .ah) ≠ .setup), fun _ =>
        ⟨Prog.All.times fun _ => ?_, fun _ => (giveBack_noData _).noSetup⟩⟩
      exact checked_bind_all (data_ne_setup rfl) awaitCompletion_noSetup

theorem benchFindDevice_noData (i left : ℕ) : NoData (benchFindDevice devName i left) := by
  induction left generalizing i with
  | zero => trivial
  | succ left ih =>
    cases devName with
    | none => exact (rfl : callKind (.openDevice i) = .other)
    | some name => exact ⟨rfl, fun _ => Prog.All.ite rfl (ih (i + 1))⟩

theorem benchOpenDevice_noData : NoData (benchOpenDevice devName) := by
  refine ⟨rfl, fun r => ?_⟩
  rcases r with _ | _ | n
  · trivial
  · trivial
  · exact ⟨benchFindDevice_noData devName 0 (n + 1), fun ctx => ⟨rfl, fun _ => check_all ctx⟩⟩

theorem benchInitCtx_noData (cfg : BenchConfig) : NoData (benchInitCtx cfg devName) := by
  have hobjects : NoData benchObjects :=
    checked_bind_all rfl ⟨registerBuf_noData _, fun _ => checked_bind_all rfl (checked_all rfl)⟩
  have hcreate : NoData (createQps cfg.qpCount) := Prog.All.times fun _ => checked_all rfl
  exact ⟨benchOpenDevice_noData devName, fun _ => ⟨hobjects, fun _ => ⟨hcreate, fun _ =>
    checked_bind_all rfl (checked_all rfl)⟩⟩⟩

theorem benchConnection_noData (isServer : Bool) : NoData (benchConnection isServer) := by
  cases isServer with
  | true =>
    exact checked_bind_all rfl ⟨rfl, fun _ => checked_bind_all rfl (checked_bind_all rfl
      (checked_bind_all rfl rfl))⟩
  | false =>
    have hrest : NoData (do
        check (← call (.socket .sockfd))
        check (← call .connect)) := checked_bind_all rfl (checked_all rfl)
    refine ⟨rfl, fun ok => ?_⟩
    cases ok with
    | true => exact hrest
    | false => exact checked_bind_all rfl hrest

theorem pollCompletions_noSetup (count : ℕ) : NoSetup (pollCompletions count) := by
  induction count using Nat.strong_induction_on with
  | _ count ih =>
    cases count with
    | zero =>
      rw [pollCompletions]
      trivial
    | succ remaining =>
      rw [pollCompletions]
      refine ⟨⟨data_ne_setup rfl, fun r => ?_⟩, fun x => Prog.All.ite trivial (ih _ (by omega))⟩
      rcases r with _ | _ | ⟨ok, oks⟩
      · trivial
      · trivial
      · trivial

theorem drain_noSetup (outstandingCqes : ℤ) : NoSetup (drain outstandingCqes) :=
  Prog.All.ite ⟨pollCompletions_noSetup _, fun _ => trivial⟩ trivial

theorem measureWrite_noSetup (cfg : BenchConfig) (q : ℕ) (counters : ℤ × ℤ) :
    NoSetup (measureWrite cfg q counters) := by
  obtain ⟨signalCnt, outstandingCqes⟩ := counters
  have hthrottle : ∀ c : ℤ, NoSetup (if throttleAt cfg ≤ c then do
      let _ ← pollCompletions 1
      pure (cInt (signalCnt + 1), cInt (c - 1))
    else pure (cInt (signalCnt + 1), c)) := fun c =>
    Prog.All.ite ⟨pollCompletions_noSetup 1, fun _ => trivial⟩ trivial
  exact checked_bind_all (data_ne_setup rfl) (by split <;> exact hthrottle _)

theorem runBenchmark_noSetup (cfg : BenchConfig) : NoSetup (runBenchmark cfg) := by
  refine ⟨Prog.All.fold fun i _ => Prog.All.fold fun q _ => ?_, fun c => ?_⟩
  · exact checked_bind_all (data_ne_setup rfl) trivial
  refine ⟨drain_noSetup c, fun _ => ⟨?_, fun counters => drain_noSetup counters.2⟩⟩
  exact Prog.All.fold fun _ _ => Prog.All.fold fun q counters => measureWrite_noSetup cfg q counters

/-- The loop of `connect_qps` takes its part of the script, one queue pair after the other. -/
theorem bringUpAll_script (n : ℕ) (rest : List SetupCall) :
    scriptSpec.Triple (· = (List.range n).flatMap bringUpCalls ++ rest) (Prog.times bringUp n)
      fun _ todo => todo = rest := by
  have hloop : scriptSpec.Triple
      (fun todo => todo = (List.range' 0 (n - 0)).flatMap bringUpCalls ++ rest)
      (Prog.times bringUp n)
      (fun _ todo => todo = (List.range' n (n - n)).flatMap bringUpCalls ++ rest) := by
    refine Triple.times
      (I := fun i todo => todo = (List.range' i (n - i)).flatMap bringUpCalls ++ rest)
      fun i hi => ?_
    have hleft : n - i = n - (i + 1) + 1 := by omega
    rw [hleft, List.range'_succ, List.flatMap_cons, List.append_assoc]
    exact bringUp_script i
  refine hloop.mono (fun todo h => ?_) fun _ todo h => ?_
  · rw [h, List.range_eq_range', Nat.sub_zero]
  · rw [h, Nat.sub_self]
    rfl

/-- rdma_bench, where each side has its own options. -/
theorem rdmaBenchMain_follows (cfg : Side → BenchConfig) :
    Follows (rdmaBenchMain (cfg s) devName s.isServer)
      ((SyncProgram.rdmaBench fun s => (cfg s).qpCount).script order host s) := by
  have hcleanup : NoData (benchCleanup (cfg s)) :=
    ⟨rfl, fun _ => ⟨Prog.All.times fun _ => giveBack_noData _, fun _ => releaseAll_noData _⟩⟩
  have hexchange : ∀ rest : List SetupCall, scriptSpec.Triple
      (· = .write (host s).connInfo.toList :: .read connInfoSize :: rest) benchExchange
      fun _ todo => todo = rest := by
    intro rest
    refine at_setup (scriptNext_of_hostCall rfl (write_hostCall (host s).connInfo))
      fun ok => at_check fun _ => ?_
    exact at_bind (last_setup (scriptNext_of_hostCall rfl rfl))
      fun _ _ htodo => check_spec fun _ => htodo
  refine Follows.of_triple ?_
  refine Triple.bind (noData_triple (benchInitCtx_noData devName (cfg s)) _) fun _ => ?_
  refine Triple.bind (noData_triple (benchConnection_noData s.isServer) _) fun _ => ?_
  refine Triple.bind (Triple.bind (hexchange _)
    fun _ => bringUpAll_script (cfg s).qpCount _) fun _ => ?_
  refine Triple.bind synchronize_script fun _ => ?_
  have hdata : scriptSpec.Triple (· = (SyncProgram.rdmaBench fun s => (cfg s).qpCount).dataPhase s)
      (benchData (cfg s) s.isServer) fun _ todo => todo = [] := by
    cases s with
    | server => exact last_setup rfl
    | client =>
      exact Triple.bind (noSetup_triple (runBenchmark_noSetup _) [.syncWrite])
        fun _ => last_setup rfl
  refine Triple.bind hdata fun _ => (noData_triple hcleanup []).mono (fun _ => id) ?_
  rintro _ _ rfl
  rfl

/-- **The five programs follow their scripts.** -/
theorem mains_follow (magicOk : Bool) (num : ℤ) (cfg : Side → BenchConfig) :
    Follows (pingpongMain devName s.isServer num)
        ((SyncProgram.oob rcPingpong).script order host s) ∧
      Follows (rdmaWriteMain devName s.isServer)
        ((SyncProgram.oob rdmaWrite).script order host s) ∧
      Follows (rdmaReadMain devName s.isServer magicOk)
        ((SyncProgram.oob rdmaRead).script order host s) ∧
      Follows (udSendMain devName s.isServer num) (SyncProgram.udSend.script order host s) ∧
      Follows (rdmaBenchMain (cfg s) devName s.isServer)
        ((SyncProgram.rdmaBench fun s => (cfg s).qpCount).script order host s) :=
  ⟨pingpongMain_follows order host s devName num, rdmaWriteMain_follows order host s devName,
    rdmaReadMain_follows order host s devName magicOk, udSendMain_follows order host s devName num,
    rdmaBenchMain_follows order host s devName cfg⟩

end Programs

end Host

end RdmaBook
