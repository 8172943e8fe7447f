import ModelBox.Lineage.Buffer
import Mathlib.Data.List.Nodup
import Mathlib.Data.List.Perm.Subperm

/-!
# Climbing the inherit chain

`SessionUnmatchCache::CacheBuffer` walks from the index of an end-flag buffer along
`GetInheritInfo()->GetInheritFrom()` while the depth is not zero.  The pointers are
`std::shared_ptr`s, so nothing in the type rules out a null pointer at positive depth or a
cycle; the objects they reach form the lineage memory `IndexMemory`.

The loop is modelled with fuel.  `climb_of_climb_some` shows that fuel `mem.length` loses
nothing: a climb that stops at all stops within that many iterations, since the objects it
visits before stopping are pairwise distinct.  Under the depth invariant that expand
maintains (`ChainWellFormed`), the climb stops after exactly `deepth` iterations at the
first ancestor of depth zero (`ChainWellFormed.stopsAt`, `climb_eq_of_stopsAt`).
-/

namespace ModelBox

/-- The lineage memory: the `BufferIndexInfo` objects, each at its `IndexRef`. -/
abbrev IndexMemory := List BufferIndexInfo

/-- One iteration of the climb, `cur = cur->GetInheritInfo()->GetInheritFrom()`; `none` is a
null pointer. -/
def inheritStep (mem : IndexMemory) (cur : BufferIndexInfo) : Option BufferIndexInfo :=
  cur.inheritInfo.inheritFrom.bind fun r => mem[r]?

/-- The `k`-th ancestor of `cur` along `InheritFrom`. -/
def ancestor (mem : IndexMemory) : Nat → BufferIndexInfo → Option BufferIndexInfo
  | 0, cur => some cur
  | k + 1, cur => (inheritStep mem cur).bind (ancestor mem k)

/-- The loop `while (cur->GetInheritInfo()->GetDeepth() != 0) cur = ...` allowed `fuel`
iterations: the object it stops at, or `none` after a null pointer or when still climbing. -/
def climb (mem : IndexMemory) : Nat → BufferIndexInfo → Option BufferIndexInfo
  | 0, cur => if cur.inheritInfo.deepth = 0 then some cur else none
  | fuel + 1, cur =>
    if cur.inheritInfo.deepth = 0 then some cur else (inheritStep mem cur).bind (climb mem fuel)

variable {mem : IndexMemory}

theorem mem_of_inheritStep {cur a : BufferIndexInfo} (h : inheritStep mem cur = some a) :
    a ∈ mem := by
  obtain ⟨r, -, hr⟩ := Option.bind_eq_some.mp h
  exact List.getElem?_mem hr

theorem ancestor_add (i j : Nat) (cur : BufferIndexInfo) :
    ancestor mem (i + j) cur = (ancestor mem i cur).bind (ancestor mem j) := by
  induction i generalizing cur with
  | zero => simp [ancestor]
  | succ i ih =>
    rw [Nat.succ_add, ancestor, ancestor, Option.bind_assoc]
    simp only [ih]

theorem ancestor_succ' (k : Nat) (cur : BufferIndexInfo) :
    ancestor mem (k + 1) cur = (ancestor mem k cur).bind (inheritStep mem) := by
  rw [ancestor_add]
  cases ancestor mem k cur <;> simp [ancestor]

theorem mem_of_ancestor_succ {k : Nat} {cur a : BufferIndexInfo}
    (h : ancestor mem (k + 1) cur = some a) : a ∈ mem := by
  rw [ancestor_succ'] at h
  obtain ⟨b, -, hb⟩ := Option.bind_eq_some.mp h
  exact mem_of_inheritStep hb

/-! ## Where a climb stops -/

/-- The climb stops at `r` after `k` iterations: the ancestors before `k` have positive
depth, and the `k`-th is `r`, of depth zero. -/
def StopsAt (mem : IndexMemory) (cur : BufferIndexInfo) (k : Nat) (r : BufferIndexInfo) :
    Prop :=
  ancestor mem k cur = some r ∧ r.inheritInfo.deepth = 0 ∧
    ∀ i < k, ∃ a, ancestor mem i cur = some a ∧ a.inheritInfo.deepth ≠ 0

theorem stopsAt_zero_iff {cur r : BufferIndexInfo} :
    StopsAt mem cur 0 r ↔ r = cur ∧ cur.inheritInfo.deepth = 0 := by
  simp only [StopsAt, ancestor, Option.some.injEq, Nat.not_lt_zero, false_implies, implies_true,
    and_true]
  constructor
  · rintro ⟨rfl, h⟩; exact ⟨rfl, h⟩
  · rintro ⟨rfl, h⟩; exact ⟨rfl, h⟩

/-- A climb from an object of depth zero stops at once. -/
theorem StopsAt.eq_zero {cur r : BufferIndexInfo} {k : Nat} (h : StopsAt mem cur k r)
    (h0 : cur.inheritInfo.deepth = 0) : k = 0 := by
  cases k with
  | zero => rfl
  | succ k =>
    obtain ⟨a, ha, hne⟩ := h.2.2 0 (Nat.succ_pos k)
    cases ha
    exact absurd h0 hne

/-- From an object of positive depth, the climb stops one iteration later than from its
parent. -/
theorem stopsAt_succ_iff {cur p r : BufferIndexInfo} {k : Nat}
    (hcur : cur.inheritInfo.deepth ≠ 0) (hp : inheritStep mem cur = some p) :
    StopsAt mem cur (k + 1) r ↔ StopsAt mem p k r := by
  simp only [StopsAt, ancestor, hp, Option.some_bind]
  refine and_congr_right fun _ => and_congr_right fun _ => ⟨fun h i hi => ?_, fun h i hi => ?_⟩
  · simpa [ancestor, hp] using h (i + 1) (by omega)
  · cases i with
    | zero => exact ⟨cur, rfl, hcur⟩
    | succ i => simpa [ancestor, hp] using h i (by omega)

theorem climb_of_deepth_zero {fuel : Nat} {cur : BufferIndexInfo}
    (h0 : cur.inheritInfo.deepth = 0) : climb mem fuel cur = some cur := by
  cases fuel <;> simp [climb, h0]

theorem climb_eq_some_iff_of_deepth_zero {fuel : Nat} {cur r : BufferIndexInfo}
    (h0 : cur.inheritInfo.deepth = 0) :
    climb mem fuel cur = some r ↔ ∃ k ≤ fuel, StopsAt mem cur k r := by
  rw [climb_of_deepth_zero h0, Option.some.injEq]
  refine ⟨fun h => ⟨0, Nat.zero_le _, stopsAt_zero_iff.mpr ⟨h.symm, h0⟩⟩, ?_⟩
  rintro ⟨k, -, hstop⟩
  exact (stopsAt_zero_iff.mp (hstop.eq_zero h0 ▸ hstop)).1.symm

theorem climb_eq_some_iff {fuel : Nat} {cur r : BufferIndexInfo} :
    climb mem fuel cur = some r ↔ ∃ k ≤ fuel, StopsAt mem cur k r := by
  induction fuel generalizing cur with
  | zero =>
    by_cases h0 : cur.inheritInfo.deepth = 0
    · exact climb_eq_some_iff_of_deepth_zero h0
    simp only [climb, h0, if_false]
    refine ⟨nofun, fun ⟨k, hk, hstop⟩ => absurd ?_ h0⟩
    obtain rfl := Nat.le_zero.mp hk
    exact (stopsAt_zero_iff.mp hstop).2
  | succ fuel ih =>
    by_cases h0 : cur.inheritInfo.deepth = 0
    · exact climb_eq_some_iff_of_deepth_zero h0
    simp only [climb, h0, if_false]
    cases hp : inheritStep mem cur with
    | none =>
      refine ⟨nofun, fun ⟨k, _, hstop⟩ => ?_⟩
      cases k with
      | zero => exact absurd (stopsAt_zero_iff.mp hstop).2 h0
      | succ k => simp [StopsAt, ancestor, hp] at hstop
    | some p =>
      simp only [Option.some_bind, ih]
      constructor
      · rintro ⟨k, hk, hstop⟩
        exact ⟨k + 1, by omega, (stopsAt_succ_iff h0 hp).mpr hstop⟩
      · rintro ⟨k, hk, hstop⟩
        cases k with
        | zero => exact absurd (stopsAt_zero_iff.mp hstop).2 h0
        | succ k => exact ⟨k, by omega, (stopsAt_succ_iff h0 hp).mp hstop⟩

/-- Before it stops, a climb visits pairwise distinct objects: a repeated object would make
it revisit the stopping point earlier. -/
theorem StopsAt.ancestor_injective {cur r : BufferIndexInfo} {k : Nat}
    (h : StopsAt mem cur k r) {i j : Nat} (hi : i < k) (hj : j < k)
    (hij : ancestor mem (i + 1) cur = ancestor mem (j + 1) cur) : i = j := by
  obtain ⟨hk, hr, hbefore⟩ := h
  by_contra hne
  wlog hlt : i < j generalizing i j
  · exact this hj hi hij.symm (Ne.symm hne) (by omega)
  have hrepeat : ancestor mem (i + 1 + (k - (j + 1))) cur = some r := by
    rw [ancestor_add, hij, ← ancestor_add, show j + 1 + (k - (j + 1)) = k by omega, hk]
  obtain ⟨a, ha, hne0⟩ := hbefore (i + 1 + (k - (j + 1))) (by omega)
  rw [hrepeat] at ha
  cases ha
  exact hne0 hr

/-- A climb that stops does so within `mem.length` iterations. -/
theorem StopsAt.le_length {cur r : BufferIndexInfo} {k : Nat} (h : StopsAt mem cur k r) :
    k ≤ mem.length := by
  have hsome : ∀ i < k, ∃ a, ancestor mem (i + 1) cur = some a ∧ a ∈ mem := by
    intro i hi
    rcases Nat.lt_or_ge (i + 1) k with hlt | hge
    · obtain ⟨a, ha, -⟩ := h.2.2 (i + 1) hlt
      exact ⟨a, ha, mem_of_ancestor_succ ha⟩
    · obtain rfl : k = i + 1 := by omega
      exact ⟨r, h.1, mem_of_ancestor_succ h.1⟩
  have hnodup : ((List.range k).map fun i => ancestor mem (i + 1) cur).Nodup :=
    (List.nodup_range k).map_on fun i hi j hj hij =>
      h.ancestor_injective (List.mem_range.mp hi) (List.mem_range.mp hj) hij
  have hsub : ((List.range k).map fun i => ancestor mem (i + 1) cur) ⊆ mem.map some := by
    intro o ho
    obtain ⟨i, hi, rfl⟩ := List.mem_map.mp ho
    obtain ⟨a, ha, hmem⟩ := hsome i (List.mem_range.mp hi)
    exact List.mem_map.mpr ⟨a, hmem, ha.symm⟩
  simpa using (hnodup.subperm hsub).length_le

/-- Fuel `mem.length` loses nothing: the climb stops within it whenever it stops at all. -/
theorem climb_of_climb_some {fuel : Nat} {cur r : BufferIndexInfo}
    (h : climb mem fuel cur = some r) : climb mem mem.length cur = some r := by
  obtain ⟨k, -, hstop⟩ := climb_eq_some_iff.mp h
  exact climb_eq_some_iff.mpr ⟨k, hstop.le_length, hstop⟩

/-! ## Chains kept by expand -/

/-- The invariant expand maintains along the chain of `cur`: every ancestor of positive depth
has a non-null `InheritFrom` one level shallower. -/
def ChainWellFormed (mem : IndexMemory) (cur : BufferIndexInfo) : Prop :=
  ∀ k a, ancestor mem k cur = some a → 0 < a.inheritInfo.deepth →
    ∃ p, inheritStep mem a = some p ∧ p.inheritInfo.deepth + 1 = a.inheritInfo.deepth

/-- Along a well-formed chain the `k`-th ancestor exists for `k ≤ deepth`, `k` levels up. -/
theorem ChainWellFormed.ancestor_deepth {cur : BufferIndexInfo} (h : ChainWellFormed mem cur)
    {k : Nat} (hk : k ≤ cur.inheritInfo.deepth) :
    ∃ a, ancestor mem k cur = some a ∧ a.inheritInfo.deepth + k = cur.inheritInfo.deepth := by
  induction k with
  | zero => exact ⟨cur, rfl, rfl⟩
  | succ k ih =>
    obtain ⟨a, ha, hd⟩ := ih (by omega)
    obtain ⟨p, hp, hpd⟩ := h k a ha (by omega)
    exact ⟨p, by rw [ancestor_succ', ha, Option.some_bind, hp], by omega⟩

/-- On a well-formed chain of depth `d` the climb stops after exactly `d` iterations, at the
`d`-th ancestor, which is the first of depth zero. -/
theorem ChainWellFormed.stopsAt {cur : BufferIndexInfo} (h : ChainWellFormed mem cur) :
    ∃ root, StopsAt mem cur cur.inheritInfo.deepth root := by
  obtain ⟨root, hroot, hd⟩ := h.ancestor_deepth le_rfl
  refine ⟨root, hroot, by omega, fun i hi => ?_⟩
  obtain ⟨a, ha, had⟩ := h.ancestor_deepth hi.le
  exact ⟨a, ha, by omega⟩

/-- A climb stops at most once: the stopping point and the number of iterations are fixed. -/
theorem StopsAt.unique {cur r r' : BufferIndexInfo} {k k' : Nat}
    (h : StopsAt mem cur k r) (h' : StopsAt mem cur k' r') : k = k' ∧ r = r' := by
  have hk : k = k' := by
    by_contra hne
    rcases Nat.lt_or_gt_of_ne hne with hlt | hlt
    · obtain ⟨a, ha, hne0⟩ := h'.2.2 k hlt
      rw [h.1] at ha; cases ha; exact hne0 h.2.1
    · obtain ⟨a, ha, hne0⟩ := h.2.2 k' hlt
      rw [h'.1] at ha; cases ha; exact hne0 h'.2.1
  subst hk
  exact ⟨rfl, Option.some.inj (h.1.symm.trans h'.1)⟩

theorem climb_eq_of_stopsAt {cur r : BufferIndexInfo} {k : Nat} (h : StopsAt mem cur k r)
    (fuel : Nat) : climb mem fuel cur = if k ≤ fuel then some r else none := by
  split_ifs with hk
  · exact climb_eq_some_iff.mpr ⟨k, hk, h⟩
  · cases hc : climb mem fuel cur with
    | none => rfl
    | some r' =>
      obtain ⟨k', hk', h'⟩ := climb_eq_some_iff.mp hc
      exact absurd ((h.unique h').1 ▸ hk') hk

/-- On a well-formed chain the climb of `CacheBuffer`, allowed `mem.length` iterations,
returns. -/
theorem ChainWellFormed.climb_isSome {cur : BufferIndexInfo} (h : ChainWellFormed mem cur) :
    (climb mem mem.length cur).isSome := by
  obtain ⟨root, hstop⟩ := h.stopsAt
  rw [climb_eq_some_iff.mpr ⟨_, hstop.le_length, hstop⟩]
  rfl

/-- Expand's invariant over the whole lineage memory and the starting object, in a form that
can be evaluated: every object of positive depth has a parent one level shallower. -/
def ParentsWellFormed (mem : IndexMemory) (cur : BufferIndexInfo) : Prop :=
  ∀ a ∈ cur :: mem, 0 < a.inheritInfo.deepth →
    (inheritStep mem a).any fun p => p.inheritInfo.deepth + 1 = a.inheritInfo.deepth

instance (mem : IndexMemory) (cur : BufferIndexInfo) : Decidable (ParentsWellFormed mem cur) :=
  inferInstanceAs (Decidable (∀ a ∈ cur :: mem, _))

theorem ParentsWellFormed.chainWellFormed {cur : BufferIndexInfo}
    (h : ParentsWellFormed mem cur) : ChainWellFormed mem cur := by
  intro k a ha hpos
  have hmem : a ∈ cur :: mem := by
    cases k with
    | zero => cases ha; exact List.mem_cons_self _ _
    | succ k => exact List.mem_cons_of_mem _ (mem_of_ancestor_succ ha)
  have := h a hmem hpos
  cases hp : inheritStep mem a with
  | none => simp [hp] at this
  | some p => exact ⟨p, rfl, by simpa [hp] using this⟩

end ModelBox
