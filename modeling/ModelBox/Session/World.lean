import ModelBox.Lineage.Buffer

/-!
# Sessions as the virtual nodes see them

A virtual node reads two things of a `Session`: `IsAbort()` and its `SessionIO`.
`EraseInvalidData` tests `GetSessionIO() != nullptr`, while both `Run`s test the result of
`std::dynamic_pointer_cast<ExternalDataMapImpl>(session->GetSessionIO())`.  This development
takes every `SessionIO` a session holds to be an `ExternalDataMapImpl`, so the two tests agree
and one flag, `ioLive`, stands for both.  `Session::Abort()` sets an atomic flag that is never cleared, and
the session holds its `SessionIO` by a `std::weak_ptr` owned by the caller, so once released
it stays null.  `World` records both for every session; `abort` and `release` are the only
ways they change.

A node talks to a session only through its `SessionIO`: `PushGraphOutputBuffer` and
`SetLastError`, recorded as `IOCall`s in the order they are made.
-/

namespace ModelBox

/-- What the virtual nodes read of every session: `IsAbort()`, and whether its `SessionIO` is
there (an `ExternalDataMapImpl`, hence non-null). -/
structure World where
  isAbort : SessionRef → Bool
  ioLive : SessionRef → Bool

namespace World

/-- `Session::Abort()`. -/
def abort (w : World) (s : SessionRef) : World :=
  { w with isAbort := Function.update w.isAbort s true }

/-- The caller drops its `SessionIO`, so `GetSessionIO()` is null from now on. -/
def release (w : World) (s : SessionRef) : World :=
  { w with ioLive := Function.update w.ioLive s false }

@[simp] theorem abort_ioLive (w : World) (s : SessionRef) : (w.abort s).ioLive = w.ioLive := rfl

@[simp] theorem release_isAbort (w : World) (s : SessionRef) :
    (w.release s).isAbort = w.isAbort := rfl

theorem abort_isAbort (w : World) (s t : SessionRef) :
    (w.abort s).isAbort t = (t = s || w.isAbort t) := by
  by_cases h : t = s <;> simp [abort, Function.update, h]

theorem release_ioLive (w : World) (s t : SessionRef) :
    (w.release s).ioLive t = (t ≠ s && w.ioLive t) := by
  by_cases h : t = s <;> simp [release, Function.update, h]

end World

/-- A call a node makes on a session's `SessionIO`. -/
inductive IOCall
  | pushGraphOutputBuffer (session : SessionRef) (output : OutputBufferList)
  | setLastError (session : SessionRef) (error : Option FlowUnitError)
  deriving DecidableEq

namespace IOCall

/-- The output pushed to `s` by this call, if it is a push to `s`. -/
def pushedTo (s : SessionRef) : IOCall → Option OutputBufferList
  | pushGraphOutputBuffer t output => if t = s then some output else none
  | setLastError _ _ => none

/-- The session on whose `SessionIO` the call is made. -/
def session : IOCall → SessionRef
  | pushGraphOutputBuffer s _ => s
  | setLastError s _ => s

/-- The session and the output of this call, if it is a push. -/
def asPush : IOCall → Option (SessionRef × OutputBufferList)
  | pushGraphOutputBuffer s output => some (s, output)
  | setLastError _ _ => none

end IOCall

/-- Every output pushed to `s` by `calls`, in order. -/
def pushesTo (s : SessionRef) (calls : List IOCall) : List OutputBufferList :=
  calls.filterMap (IOCall.pushedTo s)

/-- The calls made on the `SessionIO` of `s`, in order. -/
def callsOn (s : SessionRef) (calls : List IOCall) : List IOCall :=
  calls.filter (·.session = s)

/-- Every buffer pushed to `s` under port `p` by `calls`, in order. -/
def deliveredOn (s : SessionRef) (p : PortName) (calls : List IOCall) : List Buffer :=
  (pushesTo s calls).flatMap fun output => (output.lookup p).getD []

@[simp] theorem pushesTo_nil (s : SessionRef) : pushesTo s [] = [] := rfl

@[simp] theorem pushesTo_append (s : SessionRef) (xs ys : List IOCall) :
    pushesTo s (xs ++ ys) = pushesTo s xs ++ pushesTo s ys :=
  List.filterMap_append _ _ _

@[simp] theorem pushesTo_cons_setLastError (s t : SessionRef) (e : Option FlowUnitError)
    (calls : List IOCall) : pushesTo s (.setLastError t e :: calls) = pushesTo s calls := rfl

@[simp] theorem pushesTo_map_push (s : SessionRef) (outputs : List OutputBufferList) :
    pushesTo s (outputs.map (.pushGraphOutputBuffer s)) = outputs := by
  induction outputs with
  | nil => rfl
  | cons o os ih => simpa [pushesTo, IOCall.pushedTo] using ih

theorem mem_pushesTo {s : SessionRef} {out : OutputBufferList} {calls : List IOCall} :
    out ∈ pushesTo s calls ↔ IOCall.pushGraphOutputBuffer s out ∈ calls := by
  simp only [pushesTo, List.mem_filterMap]
  constructor
  · rintro ⟨c, hc, hp⟩
    cases c with
    | pushGraphOutputBuffer t o =>
      simp only [IOCall.pushedTo, Option.ite_none_right_eq_some, Option.some.injEq] at hp
      obtain ⟨rfl, rfl⟩ := hp
      exact hc
    | setLastError => simp [IOCall.pushedTo] at hp
  · exact fun h => ⟨_, h, by simp [IOCall.pushedTo]⟩

/-- Calls that push only to other sessions push nothing to `s`. -/
theorem pushesTo_eq_nil {s : SessionRef} {calls : List IOCall}
    (h : ∀ t out, IOCall.pushGraphOutputBuffer t out ∈ calls → t ≠ s) : pushesTo s calls = [] :=
  List.eq_nil_iff_forall_not_mem.mpr fun _ hout => h s _ (mem_pushesTo.mp hout) rfl

@[simp] theorem callsOn_append (s : SessionRef) (xs ys : List IOCall) :
    callsOn s (xs ++ ys) = callsOn s xs ++ callsOn s ys :=
  List.filter_append _ _

theorem callsOn_eq_self {s : SessionRef} {calls : List IOCall}
    (h : ∀ call ∈ calls, call.session = s) : callsOn s calls = calls :=
  List.filter_eq_self.mpr fun call hc => decide_eq_true (h call hc)

theorem callsOn_eq_nil {s : SessionRef} {calls : List IOCall}
    (h : ∀ call ∈ calls, call.session ≠ s) : callsOn s calls = [] :=
  List.filter_eq_nil_iff.mpr fun call hc => by simpa using h call hc

/-- What is pushed to `s` is read off the calls made on its `SessionIO`. -/
theorem pushesTo_callsOn (s : SessionRef) (calls : List IOCall) :
    pushesTo s (callsOn s calls) = pushesTo s calls := by
  induction calls with
  | nil => rfl
  | cons call calls ih =>
    rw [show call :: calls = [call] ++ calls from rfl, callsOn_append, pushesTo_append,
      pushesTo_append, ih]
    cases call with
    | pushGraphOutputBuffer t o =>
      by_cases h : t = s <;> simp [callsOn, IOCall.session, pushesTo, IOCall.pushedTo, h]
    | setLastError t e => by_cases h : t = s <;> simp [callsOn, IOCall.session, h]

@[simp] theorem deliveredOn_append (s : SessionRef) (p : PortName) (xs ys : List IOCall) :
    deliveredOn s p (xs ++ ys) = deliveredOn s p xs ++ deliveredOn s p ys := by
  simp [deliveredOn]

end ModelBox
