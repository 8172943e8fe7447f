import ModelBox.Lineage.Climb
import ModelBox.Cache.PortStreams

/-!
# `SessionUnmatchCache`

The per-session cache of `OutputUnmatchVirtualNode`: for each port a stream map
(`port_streams_map_`), for each port whether its top-level stream has ended
(`port_end_flag_map_`), and the last error seen (`last_error_`).

`CacheBuffer` records a buffer; `PopCache` hands out one bucket per port and erases it;
`OutputUnmatchVirtualNode::Run` calls `PopCache` until it answers `STATUS_NODATA`
(`drainCache`).  The port-keyed maps are `AList`s: the source only looks entries up and
assigns them, so the order it iterates them in is left to the container.
-/

namespace ModelBox

/-- `SessionUnmatchCache`. -/
structure SessionUnmatchCache where
  portStreamsMap : AList fun _ : PortName => PortStreams
  portEndFlagMap : AList fun _ : PortName => Bool
  lastError : Option FlowUnitError
  deriving DecidableEq

/-- Apply `f` to the stream map of every port. -/
def mapPortStreams (f : PortStreams → PortStreams) (m : AList fun _ : PortName => PortStreams) :
    AList fun _ : PortName => PortStreams :=
  ⟨m.entries.map fun e => ⟨e.1, f e.2⟩, by
    simpa [List.NodupKeys, List.keys, Function.comp_def] using m.nodupKeys⟩

theorem lookup_mapPortStreams (f : PortStreams → PortStreams)
    (m : AList fun _ : PortName => PortStreams) (p : PortName) :
    (mapPortStreams f m).lookup p = (m.lookup p).map f :=
  List.dlookup_map₂ (f := fun _ => f) p

namespace SessionUnmatchCache

/-- `SessionUnmatchCache(port_names)`: every port starts with its end flag unset. -/
def create (portNames : List PortName) : SessionUnmatchCache :=
  ⟨∅, portNames.foldl (fun m name => m.insert name false) ∅, none⟩

/-- `port_streams_map_[port_name]`: the port's stream map, empty when it has none yet. -/
def portStreams (c : SessionUnmatchCache) (portName : PortName) : PortStreams :=
  (c.portStreamsMap.lookup portName).getD .empty

/-- The first part of `CacheBuffer`: keep the buffer's error, then
`port_streams[stream].push_back(buffer)`. -/
def storeBuffer (c : SessionUnmatchCache) (portName : PortName) (b : Buffer) :
    SessionUnmatchCache :=
  { c with
    lastError := keepError c.lastError b
    portStreamsMap := c.portStreamsMap.insert portName ((c.portStreams portName).pushBack b) }

/-- `CacheBuffer(port_name, buffer)`.  For an end-flag buffer the climb to its depth-zero
ancestor decides whether the port has ended; `none` when that climb does not return. -/
def cacheBuffer (mem : IndexMemory) (c : SessionUnmatchCache) (portName : PortName)
    (b : Buffer) : Option SessionUnmatchCache :=
  let c := c.storeBuffer portName b
  if b.indexInfo.isEndFlag then
    (climb mem mem.length b.indexInfo).map fun root =>
      if root.isEndFlag then { c with portEndFlagMap := c.portEndFlagMap.insert portName true }
      else c
  else some c

/-- The body of `PopCache`'s loop for one port: an empty stream map counts as an empty port
and outputs an empty list; otherwise the valid buffers of the first bucket are output. -/
def popPort (acc : Nat × OutputBufferList) (e : Σ _ : PortName, PortStreams) :
    Nat × OutputBufferList :=
  match e.2.buckets with
  | [] => (acc.1 + 1, acc.2.insert e.1 [])
  | (_, bs) :: _ => (acc.1, acc.2.insert e.1 (bs.filter Buffer.isValid))

/-- `PopCache(output_buffer_list)`: one bucket per port moves to the output and is erased;
`STATUS_NODATA` when every port was empty. -/
def popCache (c : SessionUnmatchCache) (output : OutputBufferList) :
    Status × SessionUnmatchCache × OutputBufferList :=
  let r := c.portStreamsMap.entries.foldl popPort (0, output)
  (if r.1 = c.portStreamsMap.entries.length then .noData else .continue,
    { c with portStreamsMap := mapPortStreams PortStreams.eraseFirst c.portStreamsMap }, r.2)

/-- `AllPortStreamEnd()`. -/
def allPortStreamEnd (c : SessionUnmatchCache) : Bool :=
  c.portEndFlagMap.entries.all (·.2)

/-- The loop `while (cache->PopCache(output_buffer_list) != STATUS_NODATA)
io->PushGraphOutputBuffer(output_buffer_list);`, allowed `fuel` calls of `PopCache`: the cache
it leaves and the outputs it pushes, or `none` when it is still looping. -/
def drainCache : Nat → SessionUnmatchCache → OutputBufferList →
    Option (SessionUnmatchCache × List OutputBufferList)
  | 0, _, _ => none
  | fuel + 1, c, output =>
    let r := c.popCache output
    if r.1 = .noData then some (r.2.1, [])
    else (drainCache fuel r.2.1 r.2.2).map fun d => (d.1, r.2.2 :: d.2)

/-- The largest number of stream buckets any port holds. -/
def maxBuckets (c : SessionUnmatchCache) : Nat :=
  (c.portStreamsMap.entries.map fun e => e.2.buckets.length).foldr max 0

/-- The number of stream buckets over all ports. -/
def bucketCount (c : SessionUnmatchCache) : Nat :=
  (c.portStreamsMap.entries.map fun e => e.2.buckets.length).foldr (· + ·) 0

/-! ## `PopCache` -/

theorem foldr_max_eq_zero_iff (l : List Nat) : l.foldr max 0 = 0 ↔ ∀ x ∈ l, x = 0 := by
  induction l with
  | nil => simp
  | cons a l ih => simp only [List.foldr_cons, List.mem_cons, forall_eq_or_imp, ← ih]; omega

theorem foldr_max_map_sub_one (l : List Nat) :
    (l.map (· - 1)).foldr max 0 = l.foldr max 0 - 1 := by
  induction l with
  | nil => rfl
  | cons a l ih => simp only [List.map_cons, List.foldr_cons, ih, Nat.sub_max_sub_right]

theorem le_foldr_max {l : List Nat} {x : Nat} (hx : x ∈ l) : x ≤ l.foldr max 0 := by
  induction l with
  | nil => simp at hx
  | cons a l ih =>
    rcases List.mem_cons.mp hx with rfl | hx
    · simp
    · have := ih hx; simp only [List.foldr_cons]; omega

theorem foldr_max_le_foldr_add (l : List Nat) : l.foldr max 0 ≤ l.foldr (· + ·) 0 := by
  induction l with
  | nil => simp
  | cons a l ih => simp only [List.foldr_cons]; omega

/-- One round of `PopCache`'s loop, without the branch: the empty-port count grows exactly for
an empty port, and the port's entry of the output becomes its first slice. -/
theorem popPort_eq (acc : Nat × OutputBufferList) (e : Σ _ : PortName, PortStreams) :
    popPort acc e =
      (acc.1 + if e.2.buckets = [] then 1 else 0, acc.2.insert e.1 (e.2.slice 0)) := by
  unfold popPort
  split <;> simp_all [PortStreams.slice]

theorem foldl_popPort_fst (l : List (Σ _ : PortName, PortStreams)) (acc : Nat × OutputBufferList) :
    (l.foldl popPort acc).1 = acc.1 + (l.filter fun e => e.2.buckets = []).length := by
  induction l generalizing acc with
  | nil => simp
  | cons e l ih =>
    rw [List.foldl_cons, ih, popPort_eq]
    by_cases h : e.2.buckets = [] <;> simp [h]; omega

theorem lookup_foldl_popPort (l : List (Σ _ : PortName, PortStreams)) (hl : l.NodupKeys)
    (acc : Nat × OutputBufferList) (p : PortName) :
    (l.foldl popPort acc).2.lookup p = ((l.dlookup p).map (·.slice 0)).or (acc.2.lookup p) := by
  induction l generalizing acc with
  | nil => simp
  | cons e l ih =>
    obtain ⟨q, m⟩ := e
    rw [List.nodupKeys_cons] at hl
    rw [List.foldl_cons, ih hl.2, popPort_eq]
    by_cases hp : p = q
    · subst hp
      simp [List.dlookup_eq_none.mpr hl.1, List.dlookup_cons_eq, AList.lookup_insert]
    · simp [AList.lookup_insert_ne hp, List.dlookup_cons_ne _ (⟨q, m⟩ : Σ _ : PortName, PortStreams) hp]

theorem le_maxBuckets {c : SessionUnmatchCache} {p : PortName} {m : PortStreams}
    (h : c.portStreamsMap.lookup p = some m) : m.buckets.length ≤ c.maxBuckets :=
  le_foldr_max (List.mem_map.mpr ⟨⟨p, m⟩, List.of_mem_dlookup h, rfl⟩)

theorem maxBuckets_eq_zero_iff (c : SessionUnmatchCache) :
    c.maxBuckets = 0 ↔ ∀ e ∈ c.portStreamsMap.entries, e.2.buckets = [] := by
  simp only [maxBuckets, foldr_max_eq_zero_iff, List.forall_mem_map, List.length_eq_zero]

theorem maxBuckets_le_bucketCount (c : SessionUnmatchCache) : c.maxBuckets ≤ c.bucketCount :=
  foldr_max_le_foldr_add _

variable (c : SessionUnmatchCache) (output : OutputBufferList)

/-- `PopCache` answers `STATUS_NODATA` exactly when no port holds a bucket. -/
theorem popCache_status :
    (c.popCache output).1 = if c.maxBuckets = 0 then .noData else .continue := by
  have hlen : ((c.portStreamsMap.entries.filter fun e => e.2.buckets = []).length =
      c.portStreamsMap.entries.length) ↔ c.maxBuckets = 0 := by
    rw [maxBuckets_eq_zero_iff, List.filter_length_eq_length]; simp
  simp only [popCache, foldl_popPort_fst, Nat.zero_add, hlen]

@[simp] theorem popCache_portEndFlagMap :
    (c.popCache output).2.1.portEndFlagMap = c.portEndFlagMap := rfl

@[simp] theorem popCache_lastError : (c.popCache output).2.1.lastError = c.lastError := rfl

theorem lookup_popCache_portStreamsMap (p : PortName) :
    (c.popCache output).2.1.portStreamsMap.lookup p =
      (c.portStreamsMap.lookup p).map PortStreams.eraseFirst :=
  lookup_mapPortStreams _ _ p

theorem maxBuckets_popCache : (c.popCache output).2.1.maxBuckets = c.maxBuckets - 1 := by
  simp only [popCache, maxBuckets, mapPortStreams, List.map_map]
  rw [← foldr_max_map_sub_one, List.map_map]
  congr 1
  exact List.map_congr_left fun e _ => by simp

/-- The output after `PopCache`: every port of the cache maps to its first slice, and the
entries of other ports are left as they were. -/
theorem lookup_popCache_output (p : PortName) :
    (c.popCache output).2.2.lookup p =
      ((c.portStreamsMap.lookup p).map (·.slice 0)).or (output.lookup p) :=
  lookup_foldl_popPort _ c.portStreamsMap.nodupKeys _ p

/-! ## The drain loop -/

/-- The drain loop, from an output holding only ports of the cache, calls `PopCache` exactly
`maxBuckets + 1` times; its `k`-th push maps each port of the cache to the port's `k`-th
slice and nothing else, and it leaves every port without buckets. -/
theorem drainCache_spec (c : SessionUnmatchCache) (output : OutputBufferList)
    (houtput : ∀ p, c.portStreamsMap.lookup p = none → output.lookup p = none) :
    ∃ c' pushes,
      (∀ fuel, drainCache fuel c output =
        if c.maxBuckets + 1 ≤ fuel then some (c', pushes) else none) ∧
      pushes.length = c.maxBuckets ∧
      (∀ k (hk : k < pushes.length) p,
        pushes[k].lookup p = (c.portStreamsMap.lookup p).map (·.slice k)) ∧
      (∀ p, c'.portStreamsMap.lookup p = (c.portStreamsMap.lookup p).map fun _ => .empty) ∧
      c'.portEndFlagMap = c.portEndFlagMap ∧ c'.lastError = c.lastError := by
  generalize hn : c.maxBuckets = n
  induction n generalizing c output with
  | zero =>
    refine ⟨(c.popCache output).2.1, [], fun fuel => ?_, rfl,
      fun k hk => (Nat.not_lt_zero k hk).elim, fun p => ?_, rfl, rfl⟩
    · cases fuel with
      | zero => rfl
      | succ fuel => simp [drainCache, popCache_status, hn]
    · rw [lookup_popCache_portStreamsMap]
      cases hm : c.portStreamsMap.lookup p with
      | none => rfl
      | some m =>
        have hnil : m.buckets = [] :=
          List.eq_nil_of_length_eq_zero (by have := le_maxBuckets hm; omega)
        simp [PortStreams.eq_empty_of_buckets_eq_nil (m := m.eraseFirst) (by simp [hnil])]
  | succ n ih =>
    have hmax : (c.popCache output).2.1.maxBuckets = n := by rw [maxBuckets_popCache, hn]; rfl
    have hout : ∀ p, (c.popCache output).2.1.portStreamsMap.lookup p = none →
        (c.popCache output).2.2.lookup p = none := fun p hp => by
      rw [lookup_popCache_portStreamsMap, Option.map_eq_none'] at hp
      rw [lookup_popCache_output, hp, houtput p hp]; rfl
    obtain ⟨c', pushes, hrun, hlen, hslice, hempty, hflags, herr⟩ := ih _ _ hout hmax
    refine ⟨c', (c.popCache output).2.2 :: pushes, fun fuel => ?_, by simp [hlen], ?_,
      fun p => ?_, hflags, herr⟩
    · cases fuel with
      | zero => rfl
      | succ fuel =>
        simp only [drainCache, popCache_status, hn, Nat.succ_ne_zero, if_false, reduceCtorEq,
          hrun]
        split_ifs <;> first | rfl | omega
    · intro k hk p
      cases k with
      | zero =>
        rw [List.getElem_cons_zero, lookup_popCache_output]
        cases hm : c.portStreamsMap.lookup p with
        | none => simpa using houtput p hm
        | some m => rfl
      | succ k =>
        rw [List.getElem_cons_succ, hslice, lookup_popCache_portStreamsMap, Option.map_map]
        simp [Function.comp_def, PortStreams.slice_eraseFirst]
    · rw [hempty, lookup_popCache_portStreamsMap, Option.map_map]; rfl

/-- The drain loop of `OutputUnmatchVirtualNode::Run`, which starts from a fresh output: it
stops after exactly `maxBuckets + 1` calls of `PopCache` with `maxBuckets` pushes, the
`k`-th of which maps every port of the cache to its `k`-th slice and nothing else, and no
port holds a bucket afterwards. -/
theorem drainCache_fresh (c : SessionUnmatchCache) :
    ∃ c' pushes,
      (∀ fuel, drainCache fuel c ∅ =
        if c.maxBuckets + 1 ≤ fuel then some (c', pushes) else none) ∧
      pushes.length = c.maxBuckets ∧
      (∀ k (hk : k < pushes.length) p,
        pushes[k].lookup p = (c.portStreamsMap.lookup p).map (·.slice k)) ∧
      ∀ p, c'.portStreamsMap.lookup p = (c.portStreamsMap.lookup p).map fun _ => .empty := by
  obtain ⟨c', pushes, hrun, hlen, hslice, hempty, -⟩ :=
    drainCache_spec c ∅ fun p _ => AList.lookup_empty p
  exact ⟨c', pushes, hrun, hlen, hslice, hempty⟩

/-! ## `CacheBuffer` -/

section CacheBuffer

variable {mem : IndexMemory} {c c' : SessionUnmatchCache} {p : PortName} {b : Buffer}

@[simp] theorem storeBuffer_lastError :
    (c.storeBuffer p b).lastError = keepError c.lastError b := rfl

@[simp] theorem storeBuffer_portEndFlagMap :
    (c.storeBuffer p b).portEndFlagMap = c.portEndFlagMap := rfl

theorem portStreams_storeBuffer (q : PortName) :
    (c.storeBuffer p b).portStreams q =
      if q = p then (c.portStreams p).pushBack b else c.portStreams q := by
  by_cases h : q = p
  · subst h; simp [storeBuffer, portStreams, AList.lookup_insert]
  · simp [storeBuffer, portStreams, AList.lookup_insert_ne h, h]

theorem getD_map_slice (c : SessionUnmatchCache) (q : PortName) (k : Nat) :
    ((c.portStreamsMap.lookup q).map (·.slice k)).getD [] = (c.portStreams q).slice k := by
  cases h : c.portStreamsMap.lookup q <;> simp [portStreams, h, PortStreams.slice]

/-- When `CacheBuffer` returns it has stored the buffer and kept its error; besides, only the
end flag of the port may change. -/
theorem cacheBuffer_store (h : cacheBuffer mem c p b = some c') :
    c'.portStreamsMap = (c.storeBuffer p b).portStreamsMap ∧
      c'.lastError = keepError c.lastError b := by
  unfold cacheBuffer at h
  split_ifs at h
  · obtain ⟨root, -, rfl⟩ := Option.map_eq_some'.mp h
    split_ifs <;> exact ⟨rfl, rfl⟩
  · cases h; exact ⟨rfl, rfl⟩

/-- `CacheBuffer` returns unless the buffer is an end flag whose climb does not. -/
theorem cacheBuffer_isSome
    (h : b.indexInfo.isEndFlag → (climb mem mem.length b.indexInfo).isSome) :
    (cacheBuffer mem c p b).isSome := by
  unfold cacheBuffer
  split_ifs with hend
  · simpa using h hend
  · rfl

/-- When `CacheBuffer` returns on an end flag, its climb has returned. -/
theorem climb_isSome_of_cacheBuffer (h : cacheBuffer mem c p b = some c')
    (hend : b.indexInfo.isEndFlag = true) : (climb mem mem.length b.indexInfo).isSome := by
  unfold cacheBuffer at h
  rw [if_pos hend] at h
  obtain ⟨root, hroot, -⟩ := Option.map_eq_some'.mp h
  simp [hroot]

/-- `CacheBuffer` over a run of arrivals, when every call returns: the last error is that of
the last arrival carrying one, and each port's stream map has received the buffers of that
port, in order. -/
theorem foldlM_cacheBuffer {arrivals : List (PortName × Buffer)}
    (h : arrivals.foldlM (fun c a => cacheBuffer mem c a.1 a.2) c = some c') :
    c'.lastError = (lastErrorOf (arrivals.map Prod.snd)).or c.lastError ∧
      ∀ q, c'.portStreams q =
        ((arrivals.filter (·.1 = q)).map Prod.snd).foldl PortStreams.pushBack (c.portStreams q) := by
  induction arrivals generalizing c with
  | nil => cases h; simp
  | cons a as ih =>
    rw [List.foldlM_cons] at h
    obtain ⟨c1, h1, h2⟩ := Option.bind_eq_some.mp h
    obtain ⟨hs, he⟩ := cacheBuffer_store h1
    obtain ⟨ihe, ihs⟩ := ih h2
    refine ⟨?_, fun q => ?_⟩
    · rw [ihe, he, keepError_eq, ← Option.or_assoc, List.map_cons,
        show a.2 :: as.map Prod.snd = [a.2] ++ as.map Prod.snd from rfl, lastErrorOf_append]
    · have hq : c1.portStreams q = (c.storeBuffer a.1 a.2).portStreams q := by
        simp only [portStreams, hs]
      rw [ihs, hq, portStreams_storeBuffer]
      by_cases haq : a.1 = q
      · subst haq; simp
      · simp [haq, Ne.symm haq]

end CacheBuffer

/-! ## What the drain loop hands out -/

theorem length_portStreams_le (c : SessionUnmatchCache) (p : PortName) :
    (c.portStreams p).buckets.length ≤ c.maxBuckets := by
  cases h : c.portStreamsMap.lookup p with
  | none => simp [portStreams, h]
  | some m => simpa [portStreams, h] using le_maxBuckets h

theorem maxBuckets_eq_zero_of_buckets_eq_nil {c : SessionUnmatchCache}
    (h : ∀ p, (c.portStreams p).buckets = []) : c.maxBuckets = 0 := by
  refine (maxBuckets_eq_zero_iff c).mpr fun e he => ?_
  have hl : c.portStreamsMap.lookup e.1 = some e.2 :=
    (List.mem_dlookup_iff c.portStreamsMap.nodupKeys).mpr he
  simpa [portStreams, hl] using h e.1

/-- Concatenated, the pushes of the drain loop hand out, under each port, every valid buffer
of the port once, bucket after bucket. -/
theorem flatMap_lookup_pushes {c : SessionUnmatchCache} {pushes : List OutputBufferList}
    (hlen : pushes.length = c.maxBuckets)
    (hslice : ∀ k (hk : k < pushes.length) p,
      pushes[k].lookup p = (c.portStreamsMap.lookup p).map (·.slice k))
    (p : PortName) :
    pushes.flatMap (fun o => (o.lookup p).getD []) =
      (c.portStreams p).flatten.filter Buffer.isValid := by
  have hmap : pushes.map (fun o => (o.lookup p).getD []) =
      (List.range pushes.length).map (c.portStreams p).slice :=
    List.ext_getElem (by simp) fun k h1 _ => by
      simp [hslice k (by simpa using h1), getD_map_slice]
  rw [List.flatMap, hmap, ← List.flatMap,
    PortStreams.flatMap_range_slice _ (hlen ▸ length_portStreams_le c p)]

/-- A buffer pushed by the drain loop under port `p` is a buffer of that port's stream map. -/
theorem mem_slice_of_mem_push {c : SessionUnmatchCache} {pushes : List OutputBufferList}
    (hslice : ∀ k (hk : k < pushes.length) p,
      pushes[k].lookup p = (c.portStreamsMap.lookup p).map (·.slice k))
    {o : OutputBufferList} (ho : o ∈ pushes) {p : PortName} {bs : List Buffer}
    (hbs : o.lookup p = some bs) {b : Buffer} (hb : b ∈ bs) : ∃ k, b ∈ (c.portStreams p).slice k := by
  obtain ⟨k, hk, rfl⟩ := List.mem_iff_getElem.mp ho
  rw [hslice k hk p] at hbs
  obtain ⟨m, hm, rfl⟩ := Option.map_eq_some'.mp hbs
  exact ⟨k, by simpa [portStreams, hm] using hb⟩

/-! ## Port ends -/

/-- On a buffer whose inherit chain keeps expand's depth invariant, the climb of `CacheBuffer`
stops after exactly `deepth` iterations, at the first ancestor of depth zero; so `CacheBuffer`
returns, and it marks the port as ended exactly for an end-flag buffer whose depth-zero
ancestor is an end flag. -/
theorem cacheBuffer_marks_port_end (mem : IndexMemory) (c : SessionUnmatchCache)
    (p : PortName) (b : Buffer) (hchain : ChainWellFormed mem b.indexInfo) :
    ∃ root, StopsAt mem b.indexInfo b.indexInfo.inheritInfo.deepth root ∧
      (∀ fuel, climb mem fuel b.indexInfo =
        if b.indexInfo.inheritInfo.deepth ≤ fuel then some root else none) ∧
      ∃ c', cacheBuffer mem c p b = some c' ∧
        c'.portEndFlagMap = if b.indexInfo.isEndFlag && root.isEndFlag
          then c.portEndFlagMap.insert p true else c.portEndFlagMap := by
  obtain ⟨root, hstop⟩ := hchain.stopsAt
  have hclimb := climb_eq_of_stopsAt hstop
  refine ⟨root, hstop, hclimb, ?_⟩
  have hlen : climb mem mem.length b.indexInfo = some root := by
    rw [hclimb, if_pos hstop.le_length]
  unfold cacheBuffer
  cases b.indexInfo.isEndFlag <;> cases hroot : root.isEndFlag <;> simp [hlen, hroot]

theorem cacheBuffer_marks_port_end_depth_one :
    let root : BufferIndexInfo := ⟨⟨0, 7⟩, true, false, ⟨none, 0⟩⟩
    let b : Buffer := ⟨⟨⟨1, 7⟩, true, false, ⟨some 0, 1⟩⟩, none⟩
    ChainWellFormed [root] b.indexInfo ∧
      ∃ r, StopsAt [root] b.indexInfo b.indexInfo.inheritInfo.deepth r ∧
        (∀ fuel, climb [root] fuel b.indexInfo =
          if b.indexInfo.inheritInfo.deepth ≤ fuel then some r else none) ∧
        ∃ c', cacheBuffer [root] (create ["in"]) "in" b = some c' ∧
          c'.portEndFlagMap = if b.indexInfo.isEndFlag && r.isEndFlag
            then (create ["in"]).portEndFlagMap.insert "in" true else (create ["in"]).portEndFlagMap := by
  intro root b
  have h : ChainWellFormed [root] b.indexInfo := ParentsWellFormed.chainWellFormed (by decide)
  exact ⟨h, cacheBuffer_marks_port_end [root] (create ["in"]) "in" b h⟩

/-! ## When every port has ended -/

/-- Two streams reach one port, the one at the higher address first: the first `PopCache`
outputs the bucket of the stream that arrived second. -/
theorem popCache_first_bucket_arrived_second :
    let first : Buffer := ⟨⟨⟨2, 7⟩, false, false, ⟨none, 0⟩⟩, none⟩
    let second : Buffer := ⟨⟨⟨1, 7⟩, false, false, ⟨none, 0⟩⟩, none⟩
    ∃ c, [("in", first), ("in", second)].foldlM (fun c a => cacheBuffer [] c a.1 a.2)
        (create ["in"]) = some c ∧
      (c.popCache ∅).2.2.lookup "in" = some [second] ∧ first ≠ second := by
  intro first second
  exact ⟨_, rfl, rfl, by decide⟩

/-- Successive `PopCache` calls hand out each port's buckets in ascending stream address, the
order of the per-port `std::map`, whatever order the streams arrived in; within a bucket the
buffers of its stream stay in arrival order.  The drain loop makes as many pushes as the
fullest port has buckets, so every bucket of the port is handed out. -/
theorem popCache_emits_buckets_by_address (mem : IndexMemory) (portNames : List PortName)
    (arrivals : List (PortName × Buffer)) (c : SessionUnmatchCache)
    (hc : arrivals.foldlM (fun c a => cacheBuffer mem c a.1 a.2) (create portNames) = some c)
    (p : PortName) :
    ((c.portStreams p).buckets.map Prod.fst).Sorted (· < ·) ∧
      (∀ addr, (c.portStreams p).find addr =
        ((arrivals.filter (·.1 = p)).map Prod.snd).filter (·.streamAddr = addr)) ∧
      ∃ c' pushes, drainCache (c.maxBuckets + 1) c ∅ = some (c', pushes) ∧
        pushes.length = c.maxBuckets ∧ (c.portStreams p).buckets.length ≤ pushes.length ∧
        ∀ k (hk : k < pushes.length), (pushes[k].lookup p).getD [] = (c.portStreams p).slice k := by
  obtain ⟨c', pushes, hrun, hlen, hslice, -⟩ := drainCache_spec c ∅ fun p _ => AList.lookup_empty p
  refine ⟨(c.portStreams p).sorted, fun addr => ?_, c', pushes, by simp [hrun], hlen,
    hlen ▸ length_portStreams_le c p, fun k hk => ?_⟩
  · rw [(foldlM_cacheBuffer hc).2 p, PortStreams.find_foldl_pushBack]
    rfl
  · rw [hslice, getD_map_slice]

theorem popCache_emits_buckets_by_address_two_streams :
    let first : Buffer := ⟨⟨⟨2, 7⟩, false, false, ⟨none, 0⟩⟩, none⟩
    let second : Buffer := ⟨⟨⟨1, 7⟩, false, false, ⟨none, 0⟩⟩, none⟩
    let arrivals := [("in", first), ("in", second)]
    ∃ c, arrivals.foldlM (fun c a => cacheBuffer [] c a.1 a.2) (create ["in"]) = some c ∧
      ((c.portStreams "in").buckets.map Prod.fst).Sorted (· < ·) ∧
      (∀ addr, (c.portStreams "in").find addr =
        ((arrivals.filter (·.1 = "in")).map Prod.snd).filter (·.streamAddr = addr)) ∧
      ∃ c' pushes, drainCache (c.maxBuckets + 1) c ∅ = some (c', pushes) ∧
        pushes.length = c.maxBuckets ∧ (c.portStreams "in").buckets.length ≤ pushes.length ∧
        ∀ k (hk : k < pushes.length),
          (pushes[k].lookup "in").getD [] = (c.portStreams "in").slice k := by
  intro first second arrivals
  exact ⟨_, rfl, popCache_emits_buckets_by_address [] ["in"] arrivals _ rfl "in"⟩

end SessionUnmatchCache

end ModelBox
