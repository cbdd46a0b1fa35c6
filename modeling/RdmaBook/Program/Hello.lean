import RdmaBook.Program.Mains

/-!
# The main of hello_verbs

The program of chapter 8 lists the devices, opens one, creates one object of each kind, and gives
all of it back in an order in which nothing is released while something needs it, with the buffer
right behind its memory region: every call is right, as long as no object has failed to be released
(`RdmaBook.Host.helloVerbs_right`). Where one has, the program warns of it and goes on: the teardown
makes its calls in their order whatever they bring back, each with the line that tells what has
become of it, and says at its end that all resources have been freed. What stays behind then are the
objects that have failed to be released (`RdmaBook.Host.helloVerbs_ends`).

That is so in the runs in which `ibv_open_device` brings back a context. Where it does not, the
program frees the device list first and reads the name of the device for its message after that;
`open_device` of rdma_common has these two the other way round. There is such a run on every machine
that has the device (`RdmaBook.Host.helloVerbs_wrong`).
-/

namespace RdmaBook

namespace Host

open CallSpec CallSpec.Triple

/-! ### The program -/

/-- `MAX_GID_DISPLAY`. -/
def maxGidDisplay : ℤ := 16

/-- The lines of the list: the name and the GUID of each device. -/
def listDevices (numDevices : ℕ) : HostProg Unit :=
  Prog.times (fun i => do
    let _ ← call (.getDeviceName i)
    let _ ← call (.getDeviceName i)
    pure ()) numDevices

/-- The device that is asked for, or the first one. -/
def selectDevice (requestedDev : Option String) (numDevices : ℕ) : HostProg (Option ℕ) :=
  match requestedDev with
  | some name => findDevice name 0 numDevices
  | none => do
    let _ ← call (.getDeviceName 0)
    pure (some 0)

/-- Up to the selection of the device; the number of it is returned. -/
def helloSelect (requestedDev : Option String) : HostProg ℕ := do
  match ← call .getDeviceList with
  | none => .exit
  | some numDevices =>
    listDevices numDevices
    if numDevices = 0 then
      call .freeDeviceList
      .exit
    else
      match ← selectDevice requestedDev numDevices with
      | none =>
        call .freeDeviceList
        .exit
      | some i => pure i

/-- The device is opened, and the list freed. -/
def helloOpen (i : ℕ) : HostProg Unit := do
  let _ ← call (.getDeviceName i)
  if (← call (.openDevice i)) = false then
    call .freeDeviceList
    -- the message of `DIE` has the name in it
    let _ ← call (.getDeviceName i)
    .exit
  else
    call .freeDeviceList

/-- `ibv_query_device` and `ibv_query_port`. -/
def queryBoth : HostProg Unit := do
  check (← call .query)
  check (← call .query)

/-- These, and the entries of the GID table. -/
def helloQuery (gidTblLen : ℤ) : HostProg Unit := do
  queryBoth
  Prog.times (fun _ => do
    let _ ← call .query
    pure ()) (min gidTblLen maxGidDisplay).toNat

/-- The objects, and the summary, which has the name of the device in it. -/
def helloObjects : HostProg Unit := do
  check (← call (.acquire .pd))
  check (← call (.acquire .cq))
  registerBuf .buf
  check (← call (.createQp 0))
  let _ ← call .query
  pure ()

/-- An object is released, and a line tells what has become of it. -/
def releaseWith (o : HostObj) (warning message : String) : HostProg Unit := do
  if (← call (.release o)) = true then
    call (.print message)
  else
    call (.print warning)

/-- The teardown. -/
def helloTeardown : HostProg Unit := do
  releaseWith (.qp 0) "  WARNING: ibv_destroy_qp failed: %s\n" "  QP destroyed\n"
  releaseWith (.mr .buf) "  WARNING: ibv_dereg_mr failed: %s\n" "  MR deregistered\n"
  call (.free .buf)
  call (.print "  Buffer freed\n")
  releaseWith .cq "  WARNING: ibv_destroy_cq failed: %s\n" "  CQ destroyed\n"
  releaseWith .pd "  WARNING: ibv_dealloc_pd failed: %s\n" "  PD deallocated\n"
  releaseWith .ctx "  WARNING: ibv_close_device failed: %s\n" "  Device closed\n"
  call (.print "\nAll resources freed successfully. Done.\n")

/-- `main` of hello_verbs up to the teardown. -/
def helloSetup (requestedDev : Option String) (gidTblLen : ℤ) : HostProg Unit := do
  let i ← helloSelect requestedDev
  helloOpen i
  helloQuery gidTblLen
  helloObjects

/-- `main` of hello_verbs; `gidTblLen` is what `ibv_query_port` says of the port. -/
def helloVerbsMain (requestedDev : Option String) (gidTblLen : ℤ) : HostProg Unit := do
  helloSetup requestedDev gidTblLen
  helloTeardown

/-! ### Its runs -/

section Runs

variable {devs : List String}

theorem listDevices_leads :
    (HostState.spec devs).Leads listed (listDevices devs.length) listed :=
  Leads.times_self fun _ hi => at_call ⟨rfl, hi⟩ fun _ _ => at_call ⟨rfl, hi⟩ fun _ _ => at_ret rfl

theorem selectDevice_spec {requestedDev : Option String} (hne : devs ≠ []) :
    (HostState.spec devs).Triple (· = listed) (selectDevice requestedDev devs.length)
      fun r h => h = listed ∧ ∀ i, r = some i → Chosen devs requestedDev i := by
  cases requestedDev with
  | some name =>
    exact findDevice_spec rfl (Nat.zero_add _) fun j hj => absurd hj (Nat.not_lt_zero j)
  | none =>
    refine at_call ⟨rfl, List.length_pos_iff.mpr hne⟩ fun _ _ => at_ret ⟨rfl, ?_⟩
    rintro i ⟨⟩
    exact ⟨rfl, hne⟩

/-- **The selection** comes to the device that is chosen, or to an end. -/
theorem helloSelect_spec {requestedDev : Option String} :
    (HostState.spec devs).Triple (· = .start) (helloSelect requestedDev)
      fun i h => h = listed ∧ Chosen devs requestedDev i := by
  refine at_call rfl fun r hr => ?_
  rcases hr.1 with rfl | rfl
  · exact Triple.exit
  refine Triple.bind listDevices_leads fun _ => ?_
  split
  · exact at_call rfl fun _ _ => Triple.exit
  · rename_i hlen
    refine at_bind (selectDevice_spec fun h => hlen (by rw [h]; rfl)) ?_
    rintro (_ | i) h ⟨rfl, hchosen⟩
    · exact at_call rfl fun _ _ => Triple.exit
    · exact at_ret ⟨rfl, hchosen i rfl⟩

theorem helloSelect_returns {requestedDev : Option String} {i : ℕ}
    (h : Chosen devs requestedDev i) :
    (HostState.spec devs).Returns .start (helloSelect requestedDev) i listed := by
  have hlist : (HostState.spec devs).Returns listed (listDevices devs.length) () listed :=
    Returns.times fun i hi =>
      have hname : devs[i]? = some (devs.get ⟨i, hi⟩) := List.getElem?_eq_getElem hi
      Returns.at_call _ ⟨hname, trivial⟩ (Returns.at_call _ ⟨hname, trivial⟩ Returns.ret)
  have hlt := h.lt
  refine Returns.at_call (some devs.length) ⟨.inr rfl, trivial⟩ (hlist.bind ?_)
  rw [if_neg (by omega)]
  refine Returns.bind (a := some i) ?_ Returns.ret
  cases requestedDev with
  | some name => exact findDevice_returns h.1 (Nat.zero_le i) (Nat.zero_add _) h.2
  | none =>
    obtain ⟨rfl, hne⟩ := h
    have hname : devs[0]? = some (devs.get ⟨0, hlt⟩) := List.getElem?_eq_getElem hlt
    exact Returns.at_call (devs.get ⟨0, hlt⟩) ⟨hname, trivial⟩ Returns.ret

/-- `ibv_open_device` brings back a context. -/
def OpenGives : (e : HostCall) → e.Result → Prop
  | .openDevice _, ctx => ctx = true
  | _, _ => True

theorem openGives_iff {t : List (Prog.Event HostCall.Result)} :
    (∀ x ∈ t, OpenGives x.1 x.2) ↔ ∀ i, ⟨.openDevice i, false⟩ ∉ t := by
  constructor
  · intro h i hmem
    exact absurd (h _ hmem) Bool.false_ne_true
  · rintro h ⟨e, r⟩ hmem
    cases e with
    | openDevice i => exact Bool.eq_true_of_not_eq_false fun hr => h i (hr ▸ hmem)
    | _ => trivial

theorem helloOpen_spec {requestedDev : Option String} {i : ℕ} (h : Chosen devs requestedDev i) :
    ((HostState.spec devs).given OpenGives).Leads listed (helloOpen i) opened := by
  have hlt := h.lt
  refine at_call ⟨rfl, hlt⟩ fun _ _ => at_call ⟨rfl, hlt, List.not_mem_nil⟩ fun ctx hctx => ?_
  obtain rfl : ctx = true := hctx.2
  refine Triple.call (fun s hs => ?_) fun s r hs _ => ?_
  · subst hs
    exact (rfl : true = true)
  · subst hs
    rfl

theorem helloQuery_leads (gidTblLen : ℤ) :
    (HostState.spec devs).Leads opened (helloQuery gidTblLen) opened := by
  have hboth : (HostState.spec devs).Leads opened queryBoth opened :=
    HostState.leads_of_outcomes devs (by decide +kernel)
  refine hboth.bind fun _ => Leads.times_self fun _ _ => ?_
  exact HostState.leads_of_outcomes devs (by decide +kernel)

/-- The process in front of the teardown. -/
def helloReady : HostState :=
  { HostState.start with live := [.qp 0, .mr .buf, .mem .buf, .cq, .pd, .ctx], qps := [.reset] }

theorem helloObjects_leads : (HostState.spec devs).Leads opened helloObjects helloReady :=
  HostState.leads_of_outcomes devs (by decide +kernel)

theorem helloTeardown_leads : (HostState.spec devs).Leads helloReady helloTeardown
    { HostState.start with qps := [.reset] } :=
  HostState.leads_of_outcomes devs (by decide +kernel)

theorem helloSetup_leads (requestedDev : Option String) (gidTblLen : ℤ) :
    ((HostState.spec devs).given OpenGives).Leads .start (helloSetup requestedDev gidTblLen)
      helloReady := by
  refine at_bind (helloSelect_spec.given OpenGives) ?_
  rintro i _ ⟨rfl, hchosen⟩
  refine (helloOpen_spec hchosen).bind fun _ => ?_
  exact Leads.bind (Triple.given (helloQuery_leads gidTblLen) OpenGives)
    fun _ => Triple.given helloObjects_leads OpenGives

theorem helloVerbs_leads (requestedDev : Option String) (gidTblLen : ℤ) :
    ((HostState.spec devs).given OpenGives).Leads .start (helloVerbsMain requestedDev gidTblLen)
      { HostState.start with qps := [.reset] } :=
  (helloSetup_leads requestedDev gidTblLen).bind
    fun _ => Triple.given helloTeardown_leads OpenGives

/-- Whatever a call has brought back, it may have brought back a context and released its object. -/
theorem exists_opened {h : HostState} {e : HostCall} {r : e.Result}
    (hr : (HostState.calls devs).Gives h e r) :
    ∃ r', (HostState.spec devs).Gives h e r' ∧ OpenGives e r' := by
  cases e with
  | openDevice i => exact ⟨true, ⟨trivial, trivial⟩, rfl⟩
  | _ =>
    obtain ⟨r', hr'⟩ := HostState.exists_released devs hr
    exact ⟨r', hr', trivial⟩

/-- **hello_verbs, where `ibv_open_device` brings back a context**: in every run, as long as no
object has failed to be released, every call is right. -/
theorem helloVerbs_right {requestedDev : Option String} {gidTblLen : ℤ}
    {t u : List (Prog.Event HostCall.Result)} {x : Prog.Event HostCall.Result}
    {o : Prog.Outcome Unit} (hrun : (helloVerbsMain requestedDev gidTblLen).Runs (t ++ x :: u) o)
    (hreal : (HostState.calls devs).Real .start (t ++ x :: u))
    (hopen : ∀ i, ⟨.openDevice i, false⟩ ∉ t) (hrel : ∀ obj, ⟨.release obj, false⟩ ∉ t) :
    (HostState.calls devs).Allows ((HostState.calls devs).after .start t) x.1 := by
  obtain ⟨hreal, hx, -⟩ := real_append.mp hreal
  have hspec : (HostState.spec devs).Real .start t :=
    real_given.mpr ⟨hreal, HostState.released_iff.mpr hrel⟩
  have hafter : (HostState.spec devs).after .start t = (HostState.calls devs).after .start t :=
    after_given
  rw [← hafter] at hx ⊢
  exact (helloVerbs_leads requestedDev gidTblLen).allows hrun hspec (openGives_iff.mpr hopen)
    (exists_opened hx)

end Runs

/-! ### Its end -/

/-- A call that neither opens a device nor releases an object. -/
def isPlain : HostCall → Bool
  | .openDevice _ => false
  | .release _ => false
  | _ => true

/-- No call of the program is one of the two. -/
abbrev IsPlain {α : Type} (p : HostProg α) : Prop := p.All fun e => isPlain e = true

theorem helloSelect_plain (requestedDev : Option String) : IsPlain (helloSelect requestedDev) := by
  refine ⟨rfl, fun r => ?_⟩
  cases r with
  | none => trivial
  | some numDevices =>
    refine ⟨Prog.All.times fun _ => ⟨rfl, fun _ => ⟨rfl, fun _ => trivial⟩⟩, fun _ => ?_⟩
    refine Prog.All.ite ⟨rfl, fun _ => trivial⟩ ⟨?_, fun dev => ?_⟩
    · cases requestedDev with
      | some name => exact findDevice_all fun _ => rfl
      | none => exact ⟨rfl, fun _ => trivial⟩
    · cases dev with
      | none => exact ⟨rfl, fun _ => trivial⟩
      | some i => trivial

theorem helloQuery_plain (gidTblLen : ℤ) : IsPlain (helloQuery gidTblLen) :=
  ⟨checked_bind_all rfl (checked_all rfl), fun _ => Prog.All.times fun _ => ⟨rfl, fun _ => trivial⟩⟩

theorem helloObjects_plain : IsPlain helloObjects :=
  checked_bind_all rfl <| checked_bind_all rfl
    ⟨checked_bind_all rfl (checked_all rfl), fun _ => checked_bind_all rfl ⟨rfl, fun _ => trivial⟩⟩

/-- Where `helloOpen` returns, there is a context. -/
theorem helloOpen_returned {i : ℕ} {t : List (Prog.Event HostCall.Result)}
    (h : (helloOpen i).Runs t (.returned ())) : ∃ name,
      t = [⟨.getDeviceName i, name⟩, ⟨.openDevice i, true⟩, ⟨.freeDeviceList, ()⟩] := by
  obtain ⟨name, t₁, rfl, h₁⟩ := Prog.Runs.call_returned h
  obtain ⟨ctx, t₂, rfl, h₂⟩ := Prog.Runs.call_returned h₁
  cases ctx with
  | true =>
    rcases h₂ with ⟨-, ho⟩ | ⟨_, rfl, -⟩
    · cases ho
    · exact ⟨name, rfl⟩
  | false =>
    obtain ⟨_, _, _, h₃⟩ := Prog.Runs.call_returned h₂
    obtain ⟨_, _, _, -, ho⟩ := Prog.Runs.call_returned h₃
    rcases ho with ho | ho <;> cases ho

/-- **Where the setup returns**, it has opened a device and released nothing. -/
theorem helloSetup_returned {requestedDev : Option String} {gidTblLen : ℤ}
    {t : List (Prog.Event HostCall.Result)}
    (h : (helloSetup requestedDev gidTblLen).Runs t (.returned ())) :
    ∀ x ∈ t, isPlain x.1 = true ∨ ∃ i, x = ⟨.openDevice i, true⟩ := by
  obtain ⟨u₁, t₁, i, rfl, hselect, h₁⟩ := Prog.Runs.bind_returned h
  obtain ⟨u₂, t₂, _, rfl, hopen, h₂⟩ := Prog.Runs.bind_returned h₁
  obtain ⟨u₃, u₄, _, rfl, hquery, hobjects⟩ := Prog.Runs.bind_returned h₂
  obtain ⟨name, rfl⟩ := helloOpen_returned hopen
  intro x hx
  rcases List.mem_append.mp hx with hx | hx
  · exact .inl ((helloSelect_plain requestedDev).of_runs hselect x hx)
  rcases List.mem_append.mp hx with hx | hx
  · rcases List.mem_cons.mp hx with rfl | hx
    · exact .inl rfl
    rcases List.mem_cons.mp hx with rfl | hx
    · exact .inr ⟨i, rfl⟩
    · obtain rfl := List.mem_singleton.mp hx
      exact .inl rfl
  rcases List.mem_append.mp hx with hx | hx
  · exact .inl ((helloQuery_plain gidTblLen).of_runs hquery x hx)
  · exact .inl (helloObjects_plain.of_runs hobjects x hx)

/-- A release with what it brings back, and the line that tells of it. -/
def releaseCalls (o : HostObj) (warning message : String) (ok : Bool) :
    List (Prog.Event HostCall.Result) :=
  [⟨.release o, ok⟩, ⟨.print (if ok = true then message else warning), ()⟩]

/-- **The calls of the teardown**, by what the releases bring back. -/
def teardownCalls (qp mr cq pd ctx : Bool) : List (Prog.Event HostCall.Result) :=
  releaseCalls (.qp 0) "  WARNING: ibv_destroy_qp failed: %s\n" "  QP destroyed\n" qp ++
    (releaseCalls (.mr .buf) "  WARNING: ibv_dereg_mr failed: %s\n" "  MR deregistered\n" mr ++
    ⟨.free .buf, ()⟩ :: ⟨.print "  Buffer freed\n", ()⟩ ::
    (releaseCalls .cq "  WARNING: ibv_destroy_cq failed: %s\n" "  CQ destroyed\n" cq ++
    (releaseCalls .pd "  WARNING: ibv_dealloc_pd failed: %s\n" "  PD deallocated\n" pd ++
    (releaseCalls .ctx "  WARNING: ibv_close_device failed: %s\n" "  Device closed\n" ctx ++
    [⟨.print "\nAll resources freed successfully. Done.\n", ()⟩]))))

theorem releaseWith_returned {o : HostObj} {warning message : String}
    {t : List (Prog.Event HostCall.Result)}
    (h : (releaseWith o warning message).Runs t (.returned ())) :
    ∃ ok, t = releaseCalls o warning message ok := by
  obtain ⟨ok, t₁, rfl, h₁⟩ := Prog.Runs.call_returned h
  refine ⟨ok, ?_⟩
  cases ok with
  | true =>
    rcases h₁ with ⟨-, ho⟩ | ⟨_, rfl, -⟩
    · cases ho
    · rfl
  | false =>
    rcases h₁ with ⟨-, ho⟩ | ⟨_, rfl, -⟩
    · cases ho
    · rfl

theorem helloTeardown_returned {t : List (Prog.Event HostCall.Result)}
    (h : helloTeardown.Runs t (.returned ())) :
    ∃ qp mr cq pd ctx, t = teardownCalls qp mr cq pd ctx := by
  obtain ⟨_, t₁, _, rfl, hqp, h₁⟩ := Prog.Runs.bind_returned h
  obtain ⟨_, t₂, _, rfl, hmr, h₂⟩ := Prog.Runs.bind_returned h₁
  obtain ⟨_, t₃, rfl, h₃⟩ := Prog.Runs.call_returned h₂
  obtain ⟨_, t₄, rfl, h₄⟩ := Prog.Runs.call_returned h₃
  obtain ⟨_, t₅, _, rfl, hcq, h₅⟩ := Prog.Runs.bind_returned h₄
  obtain ⟨_, t₆, _, rfl, hpd, h₆⟩ := Prog.Runs.bind_returned h₅
  obtain ⟨_, t₇, _, rfl, hctx, h₇⟩ := Prog.Runs.bind_returned h₆
  obtain ⟨qp, rfl⟩ := releaseWith_returned hqp
  obtain ⟨mr, rfl⟩ := releaseWith_returned hmr
  obtain ⟨cq, rfl⟩ := releaseWith_returned hcq
  obtain ⟨pd, rfl⟩ := releaseWith_returned hpd
  obtain ⟨ctx, rfl⟩ := releaseWith_returned hctx
  rcases h₇ with ⟨-, ho⟩ | ⟨_, rfl, -⟩
  · cases ho
  · exact ⟨qp, mr, cq, pd, ctx, rfl⟩

/-- An object that has been released, or not. -/
def kept (o : HostObj) (ok : Bool) : List HostObj := if ok = true then [] else [o]

/-- It stays behind if it has failed to be released. -/
theorem mem_kept {o o' : HostObj} {ok : Bool} {warning message : String} :
    o ∈ kept o' ok ↔ ⟨.release o, false⟩ ∈ releaseCalls o' warning message ok := by
  cases ok <;> simp [kept, releaseCalls]

/-- **What the teardown leaves behind** are the objects that have failed to be released. -/
theorem teardown_after (devs : List String) (qp mr cq pd ctx : Bool) :
    ∃ live, (HostState.calls devs).after helloReady (teardownCalls qp mr cq pd ctx) =
        { HostState.start with live := live, qps := [.reset] } ∧
      ∀ o, o ∈ live ↔ ⟨.release o, false⟩ ∈ teardownCalls qp mr cq pd ctx := by
  refine ⟨kept (.qp 0) qp ++ (kept (.mr .buf) mr ++ (kept .cq cq ++ (kept .pd pd ++
    kept .ctx ctx))), ?_, fun o => ?_⟩
  · cases qp <;> cases mr <;> cases cq <;> cases pd <;> cases ctx <;> rfl
  · simp only [teardownCalls, List.mem_append, List.mem_cons]
    simp [← mem_kept]

/-- **The end of hello_verbs**: the teardown makes all its calls, in their order and with a line for
each release that tells what has become of it, and says that all resources have been freed; and what
the process leaves behind are the objects that have failed to be released. -/
theorem helloVerbs_ends {devs : List String} {requestedDev : Option String} {gidTblLen : ℤ}
    {t : List (Prog.Event HostCall.Result)}
    (hrun : (helloVerbsMain requestedDev gidTblLen).Runs t (.returned ()))
    (hreal : (HostState.calls devs).Real .start t) :
    (∃ u qp mr cq pd ctx, t = u ++ teardownCalls qp mr cq pd ctx ∧
      ∀ x ∈ u, ∀ obj, x.1 ≠ .release obj) ∧
    ∃ live, (HostState.calls devs).after .start t =
        { HostState.start with live := live, qps := [.reset] } ∧
      ∀ obj, obj ∈ live ↔ ⟨.release obj, false⟩ ∈ t := by
  obtain ⟨u, v, _, rfl, hsetup, hteardown⟩ := Prog.Runs.bind_returned hrun
  obtain ⟨qp, mr, cq, pd, ctx, rfl⟩ := helloTeardown_returned hteardown
  have hplain := helloSetup_returned hsetup
  have hnone : ∀ x ∈ u, ∀ obj, x.1 ≠ .release obj := by
    rintro ⟨e, r⟩ hx obj rfl
    rcases hplain _ hx with h | ⟨i, h⟩
    · cases h
    · cases h
  have hgives : ∀ x ∈ u, OpenGives x.1 x.2 := openGives_iff.mpr fun i hx => by
    rcases hplain _ hx with h | ⟨j, h⟩
    · cases h
    · cases h
  have hreleased : ∀ x ∈ u, HostState.Released x.1 x.2 :=
    HostState.released_iff.mpr fun obj hx => hnone _ hx obj rfl
  refine ⟨⟨u, qp, mr, cq, pd, ctx, rfl, hnone⟩, ?_⟩
  -- the setup has come to the state in front of the teardown
  have hready : (HostState.calls devs).after .start u = helloReady := by
    have hreal' := real_given.mpr ⟨real_given.mpr ⟨(real_append.mp hreal).1, hreleased⟩, hgives⟩
    rw [← after_given (H := HostState.Released), ← after_given (H := OpenGives)]
    exact (helloSetup_leads requestedDev gidTblLen _ u _ rfl hsetup hreal').2 () rfl
  obtain ⟨live, hafter, hlive⟩ := teardown_after devs qp mr cq pd ctx
  refine ⟨live, by rw [after_append, hready, hafter], fun obj => (hlive obj).trans ?_⟩
  rw [List.mem_append]
  exact ⟨.inr, fun h => h.resolve_left fun hx => hnone _ hx obj rfl⟩

/-! ### Without a context -/

/-- The calls of `helloOpen` where there is no context. -/
theorem helloOpen_fails (i : ℕ) (name : String) :
    (helloOpen i).Runs [⟨.getDeviceName i, name⟩, ⟨.openDevice i, false⟩, ⟨.freeDeviceList, ()⟩,
      ⟨.getDeviceName i, name⟩] .exited := by
  refine .inr (.inr ⟨[_], _, name, rfl, .inr ⟨name, rfl, rfl⟩, ?_⟩)
  refine .inr (.inr ⟨[_], _, false, rfl, .inr ⟨false, rfl, rfl⟩, ?_⟩)
  refine .inr (.inr ⟨[_], _, (), rfl, .inr ⟨(), rfl, rfl⟩, ?_⟩)
  exact .inr (.inr ⟨[_], [], name, rfl, .inr ⟨name, rfl, rfl⟩, rfl, .inr rfl⟩)

/-- **hello_verbs, where it does not**: wherever there is the device, there is a run whose calls are
right up to the one behind the device list, which reads the name of the device. -/
theorem helloVerbs_wrong {devs : List String} {requestedDev : Option String} {gidTblLen : ℤ} {i : ℕ}
    (h : Chosen devs requestedDev i) :
    ∃ t name, (∃ u, t = u ++ [⟨.openDevice i, false⟩, ⟨.freeDeviceList, ()⟩]) ∧
      (helloVerbsMain requestedDev gidTblLen).Runs (t ++ [⟨.getDeviceName i, name⟩]) .exited ∧
      (HostState.calls devs).Real .start (t ++ [⟨.getDeviceName i, name⟩]) ∧
      (HostState.calls devs).Right .start t ∧
      ¬(HostState.calls devs).Right .start (t ++ [⟨.getDeviceName i, name⟩]) := by
  have hlt := h.lt
  have hname : devs[i]? = some (devs.get ⟨i, hlt⟩) := List.getElem?_eq_getElem hlt
  generalize devs.get ⟨i, hlt⟩ = name at hname
  obtain ⟨u, hrun, hreal, hafter⟩ := helloSelect_returns h
  have hright := right_given.mp (helloSelect_spec _ u _ rfl hrun hreal).1
  have hreal := (real_given.mp hreal).1
  have hafter : (HostState.calls devs).after .start u = listed := after_given.symm.trans hafter
  let v : List (Prog.Event HostCall.Result) :=
    [⟨.getDeviceName i, name⟩, ⟨.openDevice i, false⟩, ⟨.freeDeviceList, ()⟩]
  have hv : (HostState.calls devs).after .start (u ++ v) = .start := by
    rw [after_append, hafter]
    rfl
  have hsetup : (helloSetup requestedDev gidTblLen).Runs (u ++ (v ++ [⟨.getDeviceName i, name⟩]))
      .exited := .inr (.inr ⟨u, _, i, rfl, hrun, .inr (.inl ⟨helloOpen_fails i name, rfl⟩)⟩)
  refine ⟨u ++ v, name, ⟨u ++ [⟨.getDeviceName i, name⟩], ?_⟩, ?_, ?_, ?_, ?_⟩
  · rw [List.append_assoc]
    rfl
  · rw [List.append_assoc]
    exact .inr (.inl ⟨hsetup, rfl⟩)
  · rw [List.append_assoc]
    refine real_append.mpr ⟨hreal, ?_⟩
    exact ⟨hname, trivial, trivial, hname, trivial⟩
  · refine right_append.mpr ⟨hright, ?_⟩
    rw [hafter]
    exact ⟨⟨rfl, hlt⟩, ⟨rfl, hlt, List.not_mem_nil⟩, rfl, trivial⟩
  · intro hall
    obtain ⟨-, hlast⟩ := right_append.mp hall
    rw [hv] at hlast
    -- the list has been freed
    exact absurd hlast.1.1 Bool.false_ne_true

/-- **hello_verbs**: as long as there is a context and no object has failed to be released, every
call is right; at its end the teardown has made all its calls, with a warning for each that has
failed, and what has failed to be released, and nothing else, is left; and there is a run in which
`ibv_open_device` brings back no context and a call is not right. -/
theorem helloVerbs_open (devs : List String) (requestedDev : Option String) (gidTblLen : ℤ) :
    (∀ t x u o, (helloVerbsMain requestedDev gidTblLen).Runs (t ++ x :: u) o →
      (HostState.calls devs).Real .start (t ++ x :: u) → (∀ i, ⟨.openDevice i, false⟩ ∉ t) →
      (∀ obj, ⟨.release obj, false⟩ ∉ t) →
      (HostState.calls devs).Allows ((HostState.calls devs).after .start t) x.1) ∧
    (∀ t, (helloVerbsMain requestedDev gidTblLen).Runs t (.returned ()) →
      (HostState.calls devs).Real .start t →
      (∃ u qp mr cq pd ctx, t = u ++ teardownCalls qp mr cq pd ctx ∧
        ∀ x ∈ u, ∀ obj, x.1 ≠ .release obj) ∧
      ∃ live, (HostState.calls devs).after .start t =
          { HostState.start with live := live, qps := [.reset] } ∧
        ∀ obj, obj ∈ live ↔ ⟨.release obj, false⟩ ∈ t) ∧
    ∀ i, Chosen devs requestedDev i →
      ∃ t name, (∃ u, t = u ++ [⟨.openDevice i, false⟩, ⟨.freeDeviceList, ()⟩]) ∧
        (helloVerbsMain requestedDev gidTblLen).Runs (t ++ [⟨.getDeviceName i, name⟩]) .exited ∧
        (HostState.calls devs).Real .start (t ++ [⟨.getDeviceName i, name⟩]) ∧
        (HostState.calls devs).Right .start t ∧
        ¬(HostState.calls devs).Right .start (t ++ [⟨.getDeviceName i, name⟩]) :=
  ⟨fun _ _ _ _ => helloVerbs_right, fun _ => helloVerbs_ends, fun _ => helloVerbs_wrong⟩

end Host

end RdmaBook
