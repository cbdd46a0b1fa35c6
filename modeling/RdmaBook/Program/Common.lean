import RdmaBook.Program.Host

/-!
# The functions of rdma_common as programs

The functions that the programs share, call by call. A pointer that is returned is an `Option`,
`none` for a null one, where the caller learns more from it than that; a result is `true` where the
function returns no error.
-/

namespace RdmaBook

namespace Host

open CallSpec CallSpec.Triple

/-- A call. -/
def call (e : HostCall) : HostProg e.Result := .call e

/-! ### Devices -/

/-- `CHECK_NULL`, `CHECK_ERRNO` and `CHECK_RC`, and the checks in front of `die` and `DIE`. -/
def check (ok : Bool) : HostProg Unit := if ok = true then pure () else .exit

/-- The loop of `open_device` that looks for the named device, at the device `i`, with so many
left. -/
def findDevice (devName : String) (i : ℕ) : ℕ → HostProg (Option ℕ)
  | 0 => pure none
  | left + 1 => do
    let name ← call (.getDeviceName i)
    if name = devName then pure (some i) else findDevice devName (i + 1) left

/-- `open_device`, with the number of the device in the place of the context. -/
def openDevice (devName : Option String) : HostProg (Option ℕ) := do
  match ← call .getDeviceList with
  | none => pure none
  | some 0 =>
    call .freeDeviceList
    pure none
  | some (n + 1) =>
    let dev ← match devName with
      | some name => findDevice name 0 (n + 1)
      | none => pure (some 0)
    match dev with
    | none =>
      call .freeDeviceList
      pure none
    | some i =>
      let _ ← call (.getDeviceName i)
      let ctx ← call (.openDevice i)
      -- the name is read again for the message
      if ctx = false then
        let _ ← call (.getDeviceName i)
      call .freeDeviceList
      pure (if ctx = true then some i else none)

/-- `get_local_info`. -/
def getLocalInfo : HostProg Bool := do
  if (← call .query) = false then
    return false
  call .query

/-! ### Sockets -/

/-- The loop of `tcp_client_connect`, at the address `k`, with so many left. -/
def tryAddrs (k : ℕ) : ℕ → HostProg Bool
  | 0 => pure false
  | left + 1 => do
    if (← call (.socket .sockfd)) = false then
      tryAddrs (k + 1) left
    else if (← call (.connectTo k)) = true then
      pure true
    else
      call (.close .sockfd)
      tryAddrs (k + 1) left

/-- `tcp_client_connect`. -/
def tcpClientConnect : HostProg Bool := do
  match ← call .getaddrinfo with
  | none => pure false
  | some n =>
    let sockfd ← tryAddrs 0 n
    call .freeaddrinfo
    pure sockfd

/-- `tcp_server_listen`. -/
def tcpServerListen : HostProg Bool := do
  if (← call (.socket .listenFd)) = false then
    return false
  call .setsockopt
  if (← call .bindFd) = false then
    call (.close .listenFd)
    return false
  if (← call .listen) = false then
    call (.close .listenFd)
    return false
  return true

/-- `tcp_server_accept`. -/
def tcpServerAccept : HostProg Bool := call .accept

/-- `exchange_qp_info`, `exchange_mr_info`, and `exchange_ud_info` of ud_send, by the size of the
record. -/
def exchangeInfo (size : ℕ) : HostProg Bool := do
  if (← call (.writeRecord size)) = false then
    return false
  call (.readRecord size)

/-- `poll_completion`. -/
def pollCompletion : HostProg Bool :=
  .loop do
    let (ne, ok) ← call .pollCq
    match ne with
    | .failed => pure (some false)
    | .empty => pure none
    | .one => pure (some ok)

/-! ### What they do -/

/-- **The device that is chosen**: the first of that name, or the first one. -/
def Chosen (devs : List String) (devName : Option String) (i : ℕ) : Prop :=
  match devName with
  | some name => devs[i]? = some name ∧ ∀ j < i, devs[j]? ≠ some name
  | none => i = 0 ∧ devs ≠ []

section Specs

variable {devs : List String} {w : HostState} {α β : Type} {Q : α → HostState → Prop}
  {R : β → HostState → Prop}

theorem Chosen.lt {devName : Option String} {i : ℕ} (h : Chosen devs devName i) :
    i < devs.length := by
  cases devName with
  | some name => exact (List.getElem?_eq_some_iff.mp h.1).1
  | none =>
    obtain ⟨rfl, hne⟩ := h
    exact List.length_pos_iff.mpr hne

/-- **A check** ends the process, or changes nothing. -/
theorem check_spec {σ : Type} {M : CallSpec HostCall.Result σ} {s : σ} {Q : Unit → σ → Prop}
    {ok : Bool} (h : ok = true → Q () s) : M.Triple (· = s) (check ok) Q := by
  cases ok with
  | true => exact at_ret (h rfl)
  | false => exact Triple.exit

/-- What comes behind it may rely on it. -/
theorem at_check {σ : Type} {M : CallSpec HostCall.Result σ} {s : σ} {R : β → σ → Prop} {ok : Bool}
    {f : Unit → HostProg β} (h : ok = true → M.Triple (· = s) (f ()) R) :
    M.Triple (· = s) (check ok >>= f) R :=
  at_bind (Q := fun _ s' => s' = s ∧ ok = true) (check_spec fun hok => ⟨rfl, hok⟩)
    fun _ _ hs => hs.1 ▸ h hs.2

/-- A check makes no call. -/
theorem check_all {S : HostCall → Prop} (ok : Bool) : (check ok).All S := by
  cases ok with
  | true => trivial
  | false => trivial

/-- A call that is checked. -/
theorem checked_all {S : HostCall → Prop} {p : HostProg Bool} (h : p.All S) :
    (p >>= check).All S :=
  ⟨h, check_all⟩

/-- And what comes behind it. -/
theorem checked_bind_all {S : HostCall → Prop} {p : HostProg Bool} {f : Unit → HostProg α}
    (h : p.All S) (hf : (f ()).All S) : (p >>= fun ok => check ok >>= f).All S :=
  ⟨h, fun ok => ⟨check_all ok, fun _ => hf⟩⟩

theorem findDevice_all {S : HostCall → Prop} {name : String} {i left : ℕ}
    (h : ∀ i, S (.getDeviceName i)) : (findDevice name i left).All S := by
  induction left generalizing i with
  | zero => trivial
  | succ left ih => exact ⟨h i, fun _ => Prog.All.ite trivial ih⟩

theorem findDevice_spec {name : String} (hlist : w.devList = true) {i left : ℕ}
    (hlen : i + left = devs.length) (hbefore : ∀ j < i, devs[j]? ≠ some name) :
    (HostState.spec devs).Triple (· = w) (findDevice name i left)
      fun r h => h = w ∧ ∀ k, r = some k → Chosen devs (some name) k := by
  induction left generalizing i with
  | zero => exact at_ret ⟨rfl, fun k hk => by cases hk⟩
  | succ left ih =>
    refine at_call ⟨hlist, by omega⟩ fun r hr => ?_
    have hr : devs[i]? = some r := hr.1
    change (HostState.spec devs).Triple (· = w)
      (if r = name then pure (some i) else findDevice name (i + 1) left) _
    split
    · rename_i heq
      refine at_ret ⟨rfl, ?_⟩
      rintro k ⟨⟩
      exact ⟨heq ▸ hr, hbefore⟩
    · rename_i hne
      refine ih (by omega) fun j hj => ?_
      rcases Nat.lt_succ_iff_lt_or_eq.mp hj with hj | rfl
      · exact hbefore j hj
      · rw [hr]
        exact fun h => hne (Option.some.inj h)

theorem findDevice_returns {name : String} {k : ℕ} (hk : devs[k]? = some name) {i left : ℕ}
    (hle : i ≤ k) (hlen : i + left = devs.length) (hbefore : ∀ j < k, devs[j]? ≠ some name) :
    (HostState.spec devs).Returns w (findDevice name i left) (some k) w := by
  have hlt : k < devs.length := (List.getElem?_eq_some_iff.mp hk).1
  induction left generalizing i with
  | zero => omega
  | succ left ih =>
    have hi : devs[i]? = some (devs.get ⟨i, by omega⟩) := List.getElem?_eq_getElem (by omega)
    refine Returns.at_call (devs.get ⟨i, by omega⟩) ⟨hi, trivial⟩ ?_
    change (HostState.spec devs).Returns w
      (if devs.get ⟨i, _⟩ = name then pure (some i) else findDevice name (i + 1) left) _ _
    rcases Nat.eq_or_lt_of_le hle with rfl | hlt'
    · rw [if_pos (Option.some.inj (hi.symm.trans hk))]
      exact Returns.ret
    · rw [if_neg fun heq => hbefore i hlt' (hi.trans (congrArg some heq))]
      exact ih hlt' (by omega)

theorem devList_eq (hlist : w.devList = false) : { w with devList := false } = w := by
  obtain ⟨devList, live, qps, addrs, listenFd, sockfd⟩ := w
  obtain rfl : devList = false := hlist
  rfl

/-- **`open_device`** opens the device that is chosen, or nothing, and gives the list back. -/
theorem openDevice_spec {devName : Option String} (hlist : w.devList = false)
    (hctx : .ctx ∉ w.live) :
    (HostState.spec devs).Triple (· = w) (openDevice devName) fun r h => (r = none → h = w) ∧
      ∀ i, r = some i → h = { w with live := .ctx :: w.live } ∧ Chosen devs devName i := by
  have hnone : ∀ {h : HostState}, h = w → ((none : Option ℕ) = none → h = w) ∧
      ∀ i, none = some i → h = { w with live := .ctx :: w.live } ∧ Chosen devs devName i :=
    fun h => ⟨fun _ => h, fun i hi => by cases hi⟩
  refine at_call hlist fun r hr => ?_
  rcases hr.1 with rfl | rfl
  · exact at_ret (hnone (devList_eq hlist))
  -- the list is there: what is done with the device that has been found
  let w₁ : HostState := { w with devList := true }
  have hopen : ∀ dev, (∀ i, dev = some i → Chosen devs devName i ∧ i < devs.length) →
      (HostState.spec devs).Triple (· = w₁) (match dev with
        | none => do
          call .freeDeviceList
          pure none
        | some i => do
          let _ ← call (.getDeviceName i)
          let ctx ← call (.openDevice i)
          if ctx = false then
            let _ ← call (.getDeviceName i)
          call .freeDeviceList
          pure (if ctx = true then some i else none) : HostProg (Option ℕ)) fun r h =>
        (r = none → h = w) ∧
          ∀ i, r = some i → h = { w with live := .ctx :: w.live } ∧ Chosen devs devName i := by
    intro dev hdev
    cases dev with
    | none => exact at_call rfl fun _ _ => at_ret (hnone (devList_eq hlist))
    | some i =>
      obtain ⟨hchosen, hlt⟩ := hdev i rfl
      refine at_call ⟨rfl, hlt⟩ fun _ _ => at_call ⟨rfl, hlt, hctx⟩ fun ctx _ => ?_
      cases ctx with
      | false =>
        refine at_call ⟨rfl, hlt⟩ fun _ _ => at_call rfl fun _ _ => ?_
        exact at_ret (hnone (devList_eq hlist))
      | true =>
        refine at_call rfl fun _ _ => at_ret ⟨fun h => (by cases h), ?_⟩
        rintro j ⟨⟩
        refine ⟨?_, hchosen⟩
        obtain ⟨devList, live, qps, addrs, listenFd, sockfd⟩ := w
        obtain rfl : devList = false := hlist
        rfl
  cases devs with
  | nil => exact at_call rfl fun _ _ => at_ret (hnone (devList_eq hlist))
  | cons d ds =>
    cases devName with
    | none =>
      refine at_bind (at_ret (s := w₁) (Q := fun a h => a = some 0 ∧ h = w₁) ⟨rfl, rfl⟩) ?_
      rintro dev w' ⟨rfl, rfl⟩
      refine hopen (some 0) ?_
      rintro i ⟨⟩
      exact ⟨⟨rfl, List.cons_ne_nil d ds⟩, Nat.succ_pos _⟩
    | some name =>
      refine at_bind (findDevice_spec (w := w₁) rfl (Nat.zero_add _)
        fun j hj => absurd hj (Nat.not_lt_zero j)) ?_
      rintro dev w' ⟨rfl, hdev⟩
      exact hopen dev fun i hi => ⟨hdev i hi, (List.getElem?_eq_some_iff.mp (hdev i hi).1).1⟩

theorem tryAddrs_spec {n : ℕ} (haddrs : w.addrs = some n) (hfd : w.sockfd = none) {k left : ℕ}
    (hlen : k + left = n) : (HostState.spec devs).Triple (· = w) (tryAddrs k left) fun ok h =>
      h = { w with sockfd := if ok = true then some .connected else none } := by
  have hsame : w = { w with sockfd := none } := by
    obtain ⟨devList, live, qps, addrs, listenFd, sockfd⟩ := w
    obtain rfl : sockfd = none := hfd
    rfl
  induction left generalizing k with
  | zero => exact at_ret hsame
  | succ left ih =>
    refine at_call hfd fun ok _ => ?_
    cases ok with
    | false => exact ih (by omega)
    | true =>
      refine at_call ⟨rfl, ?_⟩ fun ok _ => ?_
      · change k < w.addrs.getD 0
        rw [haddrs]
        exact (by omega : k < n)
      cases ok with
      | true => exact at_ret rfl
      | false =>
        refine at_call (Option.some_ne_none _) fun _ _ => ?_
        have hrest := ih (k := k + 1) (by omega)
        rw [hsame] at hrest
        exact hrest

/-- **`tcp_client_connect`** leaves a socket open if it is connected, and no address list. -/
theorem tcpClientConnect_spec (haddrs : w.addrs = none) (hfd : w.sockfd = none) :
    (HostState.spec devs).Triple (· = w) tcpClientConnect fun ok h =>
      h = { w with sockfd := if ok = true then some .connected else none } := by
  obtain ⟨devList, live, qps, addrs, listenFd, sockfd⟩ := w
  obtain rfl : addrs = none := haddrs
  obtain rfl : sockfd = none := hfd
  refine at_call rfl fun r _ => ?_
  cases r with
  | none => exact at_ret rfl
  | some n =>
    refine at_bind (tryAddrs_spec rfl rfl (Nat.zero_add n)) ?_
    rintro ok w' rfl
    exact at_call (Option.some_ne_none _) fun _ _ => at_ret rfl

/-- **`tcp_server_listen`** leaves a socket open if it is listening. -/
theorem tcpServerListen_spec (hfd : w.listenFd = none) :
    (HostState.spec devs).Triple (· = w) tcpServerListen fun ok h =>
      h = { w with listenFd := if ok = true then some .listening else none } := by
  obtain ⟨devList, live, qps, addrs, listenFd, sockfd⟩ := w
  obtain rfl : listenFd = none := hfd
  refine at_call rfl fun ok _ => ?_
  cases ok with
  | false => exact at_ret rfl
  | true =>
    refine at_call rfl fun _ _ => at_call rfl fun ok _ => ?_
    cases ok with
    | false => exact at_call (Option.some_ne_none _) fun _ _ => at_ret rfl
    | true =>
      refine at_call rfl fun ok _ => ?_
      cases ok with
      | false => exact at_call (Option.some_ne_none _) fun _ _ => at_ret rfl
      | true => exact at_ret rfl

end Specs

end Host

end RdmaBook
