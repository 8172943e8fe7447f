import Mathlib.Data.List.AList

/-!
# Buffers and their lineage tags

The part of a `Buffer` that the virtual nodes of `virtual_node.cc` read: its error, and,
through `BufferManageView::GetIndexInfo`, its `BufferIndexInfo` (stream, end flag,
placeholder flag and inherit information).  Payload and metadata are never read there and
are left out.

Sessions, streams and index objects are shared objects.  A `Stream` is known by its address,
which is also what a `std::map` keyed by `std::shared_ptr<Stream>` orders by; a session by the
address `SessionRef`; the `InheritFrom` pointer of an index object by the position `IndexRef`
of its target in the lineage memory (see `ModelBox.Lineage.Climb`).
-/

namespace ModelBox

/-- The address of a `Session` object. -/
abbrev SessionRef := Nat

/-- The position of a `BufferIndexInfo` object in the lineage memory. -/
abbrev IndexRef := Nat

/-- Ports are named by `std::string`. -/
abbrev PortName := String

/-- A `FlowUnitError`, known by its description. -/
structure FlowUnitError where
  desc : String
  deriving DecidableEq, Repr

/-- A `Stream`: the address of the object and the session it belongs to. -/
structure Stream where
  addr : Nat
  session : SessionRef
  deriving DecidableEq, Repr

/-- `BufferInheritInfo`: the `InheritFrom` pointer (`none` is `nullptr`) and the depth. -/
structure InheritInfo where
  inheritFrom : Option IndexRef
  deepth : Nat
  deriving DecidableEq, Repr

/-- `BufferIndexInfo`, the lineage tag of a buffer. -/
structure BufferIndexInfo where
  stream : Stream
  isEndFlag : Bool
  isPlaceholder : Bool
  inheritInfo : InheritInfo
  deriving DecidableEq, Repr

/-- A buffer, as the virtual nodes see it. -/
structure Buffer where
  indexInfo : BufferIndexInfo
  error : Option FlowUnitError
  deriving DecidableEq, Repr

namespace Buffer

/-- `GetIndexInfo(buffer)->GetStream()->GetSession()`. -/
def session (b : Buffer) : SessionRef :=
  b.indexInfo.stream.session

/-- The address of the buffer's stream, its key in a per-port stream map. -/
def streamAddr (b : Buffer) : Nat :=
  b.indexInfo.stream.addr

/-- `Buffer::HasError`. -/
def hasError (b : Buffer) : Bool :=
  b.error.isSome

/-- A buffer that the output paths deliver: neither an end flag nor a placeholder (the
`valid_output` and `valid_data_list` of the source). -/
def isValid (b : Buffer) : Bool :=
  !b.indexInfo.isEndFlag && !b.indexInfo.isPlaceholder

end Buffer

/-- The `Status` codes the virtual nodes return. -/
inductive Status
  | success
  | «continue»
  | noData
  deriving DecidableEq, Repr

/-- `OutputBufferList`: the buffers delivered on each port.  `output[port_name] = list`
is `AList.insert`. -/
abbrev OutputBufferList := AList fun _ : PortName => List Buffer

/-- `if (buffer->HasError()) last_error = buffer->GetError();`, the error update both output
paths make for one buffer. -/
def keepError (lastError : Option FlowUnitError) (b : Buffer) : Option FlowUnitError :=
  if b.hasError then b.error else lastError

/-- The error of the last buffer of `bs` that carries one. -/
def lastErrorOf (bs : List Buffer) : Option FlowUnitError :=
  (bs.filterMap Buffer.error).getLast?

@[simp] theorem lastErrorOf_nil : lastErrorOf [] = none := rfl

theorem lastErrorOf_append (bs cs : List Buffer) :
    lastErrorOf (bs ++ cs) = (lastErrorOf cs).or (lastErrorOf bs) := by
  simp [lastErrorOf, List.getLast?_append]

theorem keepError_eq (e : Option FlowUnitError) (b : Buffer) :
    keepError e b = (lastErrorOf [b]).or e := by
  cases h : b.error <;> simp [keepError, lastErrorOf, Buffer.hasError, h]

/-- Folding the per-buffer update over `bs` keeps the error of the last buffer carrying one,
or the starting error when none does. -/
theorem foldl_keepError (bs : List Buffer) (e : Option FlowUnitError) :
    bs.foldl keepError e = (lastErrorOf bs).or e := by
  induction bs generalizing e with
  | nil => simp
  | cons b bs ih =>
    rw [List.foldl_cons, ih, keepError_eq, ← Option.or_assoc,
      ← lastErrorOf_append, List.singleton_append]

/-- Leaving out buffers that carry no error does not change the last error. -/
theorem lastErrorOf_filter (bs : List Buffer) (q : Buffer → Bool)
    (h : ∀ b ∈ bs, q b = false → b.error = none) : lastErrorOf (bs.filter q) = lastErrorOf bs := by
  unfold lastErrorOf
  congr 1
  induction bs with
  | nil => rfl
  | cons b bs ih =>
    rw [List.forall_mem_cons] at h
    by_cases hq : q b
    · rw [List.filter_cons_of_pos hq, List.filterMap_cons, List.filterMap_cons, ih h.2]
    · simp [List.filter_cons_of_neg hq, ih h.2, h.1 (by simpa using hq)]

theorem filter_streamAddr_comm (l : List Buffer) (q : Buffer → Bool) (addr : Nat) :
    (l.filter (·.streamAddr = addr)).filter q = (l.filter q).filter (·.streamAddr = addr) := by
  simp only [List.filter_filter]
  exact List.filter_congr fun b _ => Bool.and_comm _ _

/-- Two lists of buffers that agree stream by stream are permutations of each other. -/
theorem perm_of_filter_streamAddr_eq {xs ys : List Buffer}
    (h : ∀ addr, xs.filter (·.streamAddr = addr) = ys.filter (·.streamAddr = addr)) :
    xs.Perm ys :=
  List.perm_iff_count.mpr fun b => by
    rw [← List.count_filter (p := fun c => decide (c.streamAddr = b.streamAddr)) (by simp), h,
      List.count_filter (by simp)]

/-- Updating the elements of key `p`, with an update that keeps keys, and then selecting those
of key `q` is selecting first and updating when `q` is `p`. -/
theorem filter_map_update {α β : Type} [DecidableEq β] (key : α → β) (upd : α → α)
    (hkey : ∀ x, key (upd x) = key x) (l : List α) (p q : β) :
    (l.map fun x => if key x = p then upd x else x).filter (fun x => key x = q) =
      if q = p then (l.filter fun x => key x = q).map upd else l.filter fun x => key x = q := by
  induction l with
  | nil => simp
  | cons a l ih =>
    by_cases hqp : q = p
    · subst hqp
      by_cases hq : key a = q <;> simp [List.filter_cons, hq, hkey, ih]
    · by_cases hp : key a = p <;> by_cases hq : key a = q <;>
        simp [List.filter_cons, hp, hq, hqp, Ne.symm hqp, hkey, ih]

/-- Among elements with distinct keys, those with the key of one of them are that one. -/
theorem filter_key_eq_singleton {α β : Type} [DecidableEq β] (key : α → β) {l : List α}
    (hnodup : (l.map key).Nodup) {a : α} (ha : a ∈ l) :
    l.filter (fun x => key x = key a) = [a] := by
  induction l with
  | nil => cases ha
  | cons q qs ih =>
    rw [List.map_cons, List.nodup_cons] at hnodup
    rcases List.mem_cons.mp ha with rfl | hmem
    · rw [List.filter_cons_of_pos (by simp), List.filter_eq_nil_iff.mpr fun r hr h =>
        hnodup.1 (by simpa [of_decide_eq_true h] using List.mem_map_of_mem key hr)]
    · have hne : key q ≠ key a := fun h => hnodup.1 (h ▸ List.mem_map_of_mem _ hmem)
      rw [List.filter_cons_of_neg (by simpa using hne), ih hnodup.2 hmem]

end ModelBox
