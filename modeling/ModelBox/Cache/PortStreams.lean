import ModelBox.Lineage.Buffer
import Mathlib.Data.List.Sort
import Mathlib.Data.List.Perm.Basic

/-!
# The stream map of one port

`SessionUnmatchCache` keeps, for each port, a `std::map` keyed by `std::shared_ptr<Stream>`
from stream to the buffers of that stream (`port_streams` in the source).  Such a map is
ordered by the stream's address: `port_streams[stream].push_back(buffer)` appends to the
bucket of the buffer's stream, creating it in its place when missing, and `begin()` is the
bucket with the smallest address.

`PortStreams` carries the two facts every later proof needs: the addresses ascend, and each
bucket holds only buffers of its own stream.
-/

namespace ModelBox

/-- `port_streams[stream].push_back(buffer)` on buckets in ascending stream address. -/
def pushBackAt (k : Nat) (b : Buffer) : List (Nat × List Buffer) → List (Nat × List Buffer)
  | [] => [(k, [b])]
  | (k', bs) :: rest =>
    if k < k' then (k, [b]) :: (k', bs) :: rest
    else if k = k' then (k', bs ++ [b]) :: rest
    else (k', bs) :: pushBackAt k b rest

section PushBackAt

variable {k : Nat} {b : Buffer}

theorem mem_keys_pushBackAt {l : List (Nat × List Buffer)} {x : Nat} :
    x ∈ (pushBackAt k b l).map Prod.fst ↔ x = k ∨ x ∈ l.map Prod.fst := by
  induction l with
  | nil => simp [pushBackAt]
  | cons e rest ih =>
    obtain ⟨k', bs⟩ := e
    simp only [pushBackAt]
    split_ifs with hlt heq
    · simp
    · subst heq; simp
    · simp only [List.map_cons, List.mem_cons, ih]
      exact or_left_comm

theorem sorted_pushBackAt {l : List (Nat × List Buffer)}
    (h : (l.map Prod.fst).Sorted (· < ·)) : ((pushBackAt k b l).map Prod.fst).Sorted (· < ·) := by
  induction l with
  | nil => simp [pushBackAt]
  | cons e rest ih =>
    obtain ⟨k', bs⟩ := e
    rw [List.map_cons, List.sorted_cons] at h
    simp only [pushBackAt]
    split_ifs with hlt heq
    · simp only [List.map_cons, List.sorted_cons, List.mem_cons, forall_eq_or_imp]
      exact ⟨⟨hlt, fun y hy => hlt.trans (h.1 y hy)⟩, h⟩
    · simpa using h
    · simp only [List.map_cons, List.sorted_cons, mem_keys_pushBackAt]
      exact ⟨fun y hy => hy.elim (fun hy => by omega) (h.1 y), ih h.2⟩

theorem own_pushBackAt {l : List (Nat × List Buffer)} (hb : b.streamAddr = k)
    (h : ∀ e ∈ l, ∀ c ∈ e.2, c.streamAddr = e.1) :
    ∀ e ∈ pushBackAt k b l, ∀ c ∈ e.2, c.streamAddr = e.1 := by
  induction l with
  | nil => simpa [pushBackAt] using hb
  | cons e rest ih =>
    obtain ⟨k', bs⟩ := e
    obtain ⟨hbs, hrest⟩ := List.forall_mem_cons.mp h
    simp only [pushBackAt]
    split_ifs with hlt heq
    · exact List.forall_mem_cons.mpr ⟨by simpa using hb, h⟩
    · subst heq
      refine List.forall_mem_cons.mpr ⟨fun c hc => ?_, hrest⟩
      rcases List.mem_append.mp hc with hc | hc
      · exact hbs c hc
      · rw [List.mem_singleton.mp hc]; exact hb
    · exact List.forall_mem_cons.mpr ⟨hbs, ih hrest⟩

theorem flatMap_pushBackAt_perm (l : List (Nat × List Buffer)) :
    ((pushBackAt k b l).flatMap Prod.snd).Perm (l.flatMap Prod.snd ++ [b]) := by
  induction l with
  | nil => simp [pushBackAt]
  | cons e rest ih =>
    obtain ⟨k', bs⟩ := e
    simp only [pushBackAt]
    split_ifs
    · simp only [List.flatMap_cons, List.singleton_append]
      exact (List.perm_append_singleton b _).symm
    · simpa using (List.perm_append_singleton b _).symm.append_left bs
    · simpa using ih.append_left bs

theorem lookup_cons_of_ne {a k : Nat} {v : List Buffer} {l : List (Nat × List Buffer)}
    (h : a ≠ k) : ((k, v) :: l).lookup a = l.lookup a := by
  simp [List.lookup_cons, beq_false_of_ne h]

theorem lookup_pushBackAt {l : List (Nat × List Buffer)} (h : (l.map Prod.fst).Sorted (· < ·))
    (a : Nat) : (pushBackAt k b l).lookup a =
      if a = k then some ((l.lookup a).getD [] ++ [b]) else l.lookup a := by
  induction l with
  | nil => by_cases ha : a = k <;> simp [pushBackAt, ha, lookup_cons_of_ne]
  | cons e rest ih =>
    obtain ⟨k', bs⟩ := e
    rw [List.map_cons, List.sorted_cons] at h
    rcases Nat.lt_trichotomy k k' with hlt | rfl | hgt
    · rw [show pushBackAt k b ((k', bs) :: rest) = (k, [b]) :: (k', bs) :: rest by
        simp [pushBackAt, hlt]]
      by_cases ha : a = k
      · subst ha
        have hrest : rest.lookup a = none := List.lookup_eq_none_iff.mpr fun q hq => by
          have := h.1 q.1 (List.mem_map_of_mem _ hq)
          simp only [bne_iff_ne, ne_eq]; omega
        simp [lookup_cons_of_ne (Nat.ne_of_lt hlt), hrest]
      · simp [lookup_cons_of_ne ha, ha]
    · rw [show pushBackAt k b ((k, bs) :: rest) = (k, bs ++ [b]) :: rest by simp [pushBackAt]]
      by_cases ha : a = k <;> simp [ha, lookup_cons_of_ne]
    · rw [show pushBackAt k b ((k', bs) :: rest) = (k', bs) :: pushBackAt k b rest by
        simp [pushBackAt, show ¬k < k' by omega, show k ≠ k' by omega]]
      by_cases hak : a = k'
      · subst hak; simp [show a ≠ k by omega]
      · simp [lookup_cons_of_ne hak, ih h.2]

end PushBackAt

theorem flatMap_range_getElem_filter (l : List (Nat × List Buffer)) {n : Nat} (hn : l.length ≤ n) :
    (List.range n).flatMap (fun k => ((l[k]?).map fun e => e.2.filter Buffer.isValid).getD []) =
      (l.flatMap Prod.snd).filter Buffer.isValid := by
  induction l generalizing n with
  | nil => simp
  | cons e l ih =>
    obtain ⟨n, rfl⟩ : ∃ k, n = k + 1 := ⟨n - 1, by simp at hn; omega⟩
    rw [List.range_succ_eq_map, List.flatMap_cons, List.flatMap_map]
    simpa [List.filter_append] using ih (n := n) (by simpa using hn)

/-- A per-port stream map: buckets in strictly ascending stream address, each holding only
buffers of its own stream. -/
structure PortStreams where
  buckets : List (Nat × List Buffer)
  sorted : (buckets.map Prod.fst).Sorted (· < ·)
  own : ∀ e ∈ buckets, ∀ b ∈ e.2, b.streamAddr = e.1
  deriving DecidableEq

namespace PortStreams

/-- The empty map. -/
def empty : PortStreams :=
  ⟨[], List.sorted_nil, by simp⟩

/-- `port_streams[stream].push_back(buffer)`, with `stream` the buffer's own stream. -/
def pushBack (m : PortStreams) (b : Buffer) : PortStreams :=
  ⟨pushBackAt b.streamAddr b m.buckets, sorted_pushBackAt m.sorted, own_pushBackAt rfl m.own⟩

/-- `port_streams.erase(port_streams.begin())`. -/
def eraseFirst (m : PortStreams) : PortStreams :=
  ⟨m.buckets.tail, by simpa [List.map_tail] using m.sorted.tail,
    fun e he => m.own e (List.mem_of_mem_tail he)⟩

/-- Every buffer of the map, bucket after bucket. -/
def flatten (m : PortStreams) : List Buffer :=
  m.buckets.flatMap Prod.snd

/-- The bucket of the stream at `addr`, empty when there is none. -/
def find (m : PortStreams) (addr : Nat) : List Buffer :=
  (m.buckets.lookup addr).getD []

/-- What the `k`-th call of `PopCache` outputs for this port: the valid buffers of the `k`-th
bucket, or an empty list when the port has at most `k` buckets. -/
def slice (m : PortStreams) (k : Nat) : List Buffer :=
  ((m.buckets[k]?).map fun e => e.2.filter Buffer.isValid).getD []

@[simp] theorem empty_buckets : empty.buckets = [] := rfl

@[simp] theorem pushBack_buckets (m : PortStreams) (b : Buffer) :
    (m.pushBack b).buckets = pushBackAt b.streamAddr b m.buckets := rfl

@[simp] theorem eraseFirst_buckets (m : PortStreams) : m.eraseFirst.buckets = m.buckets.tail :=
  rfl

@[simp] theorem flatten_empty : empty.flatten = [] := rfl

@[simp] theorem find_empty (addr : Nat) : empty.find addr = [] := rfl

theorem eq_empty_of_buckets_eq_nil {m : PortStreams} (h : m.buckets = []) : m = empty := by
  obtain ⟨l, _, _⟩ := m
  subst h
  rfl

theorem slice_eraseFirst (m : PortStreams) (k : Nat) : m.eraseFirst.slice k = m.slice (k + 1) := by
  simp [slice, List.getElem?_tail]

/-- Taking the slices `0, 1, …, n - 1` of a map with at most `n` buckets hands out every valid
buffer of the map once, bucket after bucket. -/
theorem flatMap_range_slice (m : PortStreams) {n : Nat} (hn : m.buckets.length ≤ n) :
    (List.range n).flatMap m.slice = m.flatten.filter Buffer.isValid :=
  flatMap_range_getElem_filter m.buckets hn

theorem flatten_pushBack_perm (m : PortStreams) (b : Buffer) :
    (m.pushBack b).flatten.Perm (m.flatten ++ [b]) :=
  flatMap_pushBackAt_perm m.buckets

theorem flatten_foldl_pushBack_perm (m : PortStreams) (bs : List Buffer) :
    (bs.foldl pushBack m).flatten.Perm (m.flatten ++ bs) := by
  induction bs generalizing m with
  | nil => simp
  | cons b bs ih =>
    rw [List.foldl_cons]
    refine (ih _).trans ?_
    simpa using (flatten_pushBack_perm m b).append_right bs

/-- The buffers of one stream, taken from the whole map, are exactly its bucket, in order. -/
theorem filter_flatten (m : PortStreams) (addr : Nat) :
    m.flatten.filter (fun c => c.streamAddr = addr) = m.find addr := by
  obtain ⟨l, hsorted, hown⟩ := m
  simp only [flatten, find]
  induction l with
  | nil => rfl
  | cons e rest ih =>
    obtain ⟨k', bs⟩ := e
    simp only [List.map_cons, List.sorted_cons] at hsorted
    simp only [List.mem_cons, forall_eq_or_imp] at hown
    have hbs : bs.filter (fun c => c.streamAddr = addr) = if k' = addr then bs else [] := by
      split_ifs with hk
      · exact List.filter_eq_self.mpr fun c hc => by simp [hown.1 c hc, hk]
      · exact List.filter_eq_nil_iff.mpr fun c hc => by simp [hown.1 c hc, hk]
    rw [List.flatMap_cons, List.filter_append, hbs, ih hsorted.2 hown.2]
    by_cases hk : k' = addr
    · subst hk
      have hnot : rest.lookup k' = none := List.lookup_eq_none_iff.mpr fun p hp => by
        have := hsorted.1 p.1 (List.mem_map_of_mem _ hp)
        simp only [bne_iff_ne, ne_eq]; omega
      simp [hnot]
    · have hne : (addr == k') = false := by simpa using Ne.symm hk
      simp [List.lookup_cons, hk, hne]

theorem find_pushBack (m : PortStreams) (b : Buffer) (addr : Nat) :
    (m.pushBack b).find addr = if b.streamAddr = addr then m.find addr ++ [b] else m.find addr := by
  by_cases h : b.streamAddr = addr
  · subst h; simp [find, lookup_pushBackAt m.sorted]
  · simp [find, lookup_pushBackAt m.sorted, h, Ne.symm h]

/-- After pushing `bs`, the bucket of a stream is the old bucket followed by the buffers of
`bs` on that stream, in arrival order. -/
theorem find_foldl_pushBack (m : PortStreams) (bs : List Buffer) (addr : Nat) :
    (bs.foldl pushBack m).find addr = m.find addr ++ bs.filter (·.streamAddr = addr) := by
  induction bs generalizing m with
  | nil => simp
  | cons b bs ih =>
    rw [List.foldl_cons, ih, find_pushBack]
    by_cases h : b.streamAddr = addr <;> simp [h]

/-- `PopCache` outputs no end flag and no placeholder. -/
theorem isValid_of_mem_slice {m : PortStreams} {k : Nat} {b : Buffer} (h : b ∈ m.slice k) :
    b.isValid = true := by
  unfold slice at h
  cases he : m.buckets[k]? <;> simp_all

theorem mem_flatten_of_mem_slice {m : PortStreams} {k : Nat} {b : Buffer} (h : b ∈ m.slice k) :
    b ∈ m.flatten := by
  unfold slice at h
  cases he : m.buckets[k]? with
  | none => simp [he] at h
  | some e =>
    simp only [he, Option.map_some', Option.getD_some, List.mem_filter] at h
    exact List.mem_flatMap.mpr ⟨e, List.getElem?_mem he, h.1⟩

/-- Pushing `bs` onto an empty map and reading the buffers of one stream out of it, in bucket
order, gives the buffers of `bs` on that stream in arrival order. -/
theorem filter_flatten_foldl_pushBack (bs : List Buffer) (q : Buffer → Bool) (addr : Nat) :
    ((bs.foldl pushBack empty).flatten.filter q).filter (·.streamAddr = addr) =
      (bs.filter (·.streamAddr = addr)).filter q := by
  rw [List.filter_filter, List.filter_congr (q := fun b => q b && decide (b.streamAddr = addr))
    fun b _ => Bool.and_comm _ _, ← List.filter_filter, filter_flatten, find_foldl_pushBack]
  simp

end PortStreams

end ModelBox
