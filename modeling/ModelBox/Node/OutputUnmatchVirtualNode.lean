import ModelBox.Node.OutputVirtualNode

/-!
# `OutputUnmatchVirtualNode`

The boundary node for outputs that are not matched across its input ports.  `Run` has two
loops.  The first receives every buffer waiting on each input port and caches it in its
session's `SessionUnmatchCache`, creating that cache when the session has none; buffers of
aborted sessions are dropped.  The second walks `session_cache_map_`: while a session's
`SessionIO` is there, it sets the cache's last error and pushes every output of the drain
loop; then it erases the entry when all ports have ended or the session is aborted.

`InPort::Recv(buffers, -1)` is taken as receiving the whole queue (the spec's `-1 = poll`).
The session map is an `AList`: the source only looks entries up, assigns and erases them, so
the order it walks them in is left to the container.
-/

namespace ModelBox

/-- `session_cache_map_`: the cache of each session. -/
abbrev SessionCacheMap := AList fun _ : SessionRef => SessionUnmatchCache

/-- An `OutputUnmatchVirtualNode`: its input ports and `session_cache_map_`. -/
structure OutputUnmatchVirtualNode where
  inputPorts : List InPort
  sessionCacheMap : SessionCacheMap

namespace OutputUnmatchVirtualNode

/-- `GetInputNames()`. -/
def getInputNames (n : OutputUnmatchVirtualNode) : List PortName :=
  n.inputPorts.map (·.name)

/-- The body of the first loop for one received buffer: skip it when its session is aborted,
otherwise find or create the session's cache and `CacheBuffer(in_port->GetName(), buffer)`;
`none` when `CacheBuffer` does not return. -/
def cacheReceived (mem : IndexMemory) (w : World) (inputNames : List PortName)
    (portName : PortName) (m : SessionCacheMap) (buffer : Buffer) : Option SessionCacheMap :=
  if w.isAbort buffer.session then some m
  else
    let sessionCache := (m.lookup buffer.session).getD (SessionUnmatchCache.create inputNames)
    (sessionCache.cacheBuffer mem portName buffer).map fun c => m.insert buffer.session c

/-- `in_port->Recv(buffers, -1)` followed by the loop over `buffers`. -/
def recvPort (mem : IndexMemory) (w : World) (inputNames : List PortName)
    (m : SessionCacheMap) (port : InPort) : Option SessionCacheMap :=
  port.queue.foldlM (cacheReceived mem w inputNames port.name) m

/-- The body of the second loop for one entry: what becomes of the session's cache (`none`
when the entry is erased) and the calls made on its `SessionIO`.  The drain loop is given
`bucketCount + 1` calls of `PopCache`, as every call but the last erases a bucket. -/
def serveSession (w : World) (s : SessionRef) (cache : SessionUnmatchCache) :
    Option (Option SessionUnmatchCache × List IOCall) :=
  let served : Option (SessionUnmatchCache × List IOCall) :=
    if w.ioLive s then
      (SessionUnmatchCache.drainCache (cache.bucketCount + 1) cache ∅).map fun d =>
        (d.1, .setLastError s cache.lastError :: d.2.map (.pushGraphOutputBuffer s))
    else some (cache, [])
  served.map fun d => (if d.1.allPortStreamEnd || w.isAbort s then none else some d.1, d.2)

/-- The second loop over `session_cache_map_`, erasing entries as it goes. -/
def serveStep (w : World) (acc : SessionCacheMap × List IOCall)
    (e : Σ _ : SessionRef, SessionUnmatchCache) : Option (SessionCacheMap × List IOCall) :=
  (serveSession w e.1 e.2).map fun r =>
    (match r.1 with
      | some c => acc.1.insert e.1 c
      | none => acc.1.erase e.1,
     acc.2 ++ r.2)

/-- `OutputUnmatchVirtualNode::Run`: the node it leaves and the calls it makes, or `none`
when a `CacheBuffer` call does not return. -/
def run (mem : IndexMemory) (w : World) (n : OutputUnmatchVirtualNode) :
    Option (OutputUnmatchVirtualNode × List IOCall) := do
  let m ← n.inputPorts.foldlM (recvPort mem w n.getInputNames) n.sessionCacheMap
  let r ← m.entries.foldlM (serveStep w) (m, [])
  pure (⟨n.inputPorts.map fun port => { port with queue := [] }, r.1⟩, r.2)

/-- Every buffer waiting on the input ports with its port's name, in the order `Run`
receives them. -/
def arrivals (ports : List InPort) : List (PortName × Buffer) :=
  ports.flatMap fun port => port.queue.map (port.name, ·)

/-- The buffers of session `s` waiting on the input ports named `p`, in the order `Run`
receives them. -/
def received (n : OutputUnmatchVirtualNode) (s : SessionRef) (p : PortName) : List Buffer :=
  ((n.inputPorts.filter (·.name = p)).flatMap (·.queue)).filter (·.session = s)

/-- Every buffer held by a cache belongs to the cache's session. -/
def OwnSessions (m : SessionCacheMap) : Prop :=
  ∀ s c, m.lookup s = some c → ∀ p, ∀ b ∈ (c.portStreams p).flatten, b.session = s

/-! ## The first loop -/

section Receive

variable {mem : IndexMemory} {w : World} {names : List PortName}

theorem foldlM_recvPort (ports : List InPort) (m : SessionCacheMap) :
    ports.foldlM (recvPort mem w names) m =
      (arrivals ports).foldlM (fun m a => cacheReceived mem w names a.1 m a.2) m := by
  induction ports generalizing m with
  | nil => rfl
  | cons port ports ih =>
    simp only [List.foldlM_cons, arrivals, List.flatMap_cons, List.foldlM_append, recvPort,
      List.foldlM_map]
    exact congrArg _ (funext ih)

theorem received_eq_arrivals (n : OutputUnmatchVirtualNode) (s : SessionRef) (p : PortName) :
    n.received s p =
      ((((arrivals n.inputPorts).filter (·.2.session = s)).filter (·.1 = p)).map Prod.snd) := by
  unfold received arrivals
  induction n.inputPorts with
  | nil => rfl
  | cons port ports ih =>
    by_cases hp : port.name = p
    · simp [List.filter_cons, hp, ih, List.filter_map, Function.comp_def]
    · simp [List.filter_cons, hp, ih, List.filter_map, Function.comp_def]

/-- What one iteration of the first loop can do: skip a buffer of an aborted session, or store
it with `CacheBuffer` in its session's cache, made fresh when there is none. -/
theorem cacheReceived_cases {p : PortName} {m m' : SessionCacheMap} {b : Buffer}
    (h : cacheReceived mem w names p m b = some m') :
    (w.isAbort b.session = true ∧ m' = m) ∨
      (w.isAbort b.session = false ∧ ∃ c,
        ((m.lookup b.session).getD (SessionUnmatchCache.create names)).cacheBuffer mem p b = some c ∧
          m' = m.insert b.session c) := by
  unfold cacheReceived at h
  split_ifs at h with habort
  · exact .inl ⟨habort, (Option.some.inj h).symm⟩
  · obtain ⟨c, hc, rfl⟩ := Option.map_eq_some'.mp h
    exact .inr ⟨by simpa using habort, c, hc, rfl⟩

theorem lookup_cacheReceived_of_ne {p : PortName} {m m' : SessionCacheMap} {b : Buffer}
    (h : cacheReceived mem w names p m b = some m') {s : SessionRef} (hs : s ≠ b.session) :
    m'.lookup s = m.lookup s := by
  rcases cacheReceived_cases h with ⟨-, rfl⟩ | ⟨-, c, -, rfl⟩
  · rfl
  · exact AList.lookup_insert_ne hs

/-- The first loop keeps the cache of an aborted session as it was. -/
theorem lookup_foldlM_cacheReceived_of_abort {A : List (PortName × Buffer)}
    {m m₁ : SessionCacheMap} (h : A.foldlM (fun m a => cacheReceived mem w names a.1 m a.2) m = some m₁)
    {s : SessionRef} (hs : w.isAbort s = true) : m₁.lookup s = m.lookup s := by
  induction A generalizing m with
  | nil => cases h; rfl
  | cons a A ih =>
    rw [List.foldlM_cons] at h
    obtain ⟨m', h1, h2⟩ := Option.bind_eq_some.mp h
    rw [ih h2]
    by_cases ha : s = a.2.session
    · rcases cacheReceived_cases h1 with ⟨-, rfl⟩ | ⟨habort, -⟩
      · rfl
      · simp [← ha, hs] at habort
    · exact lookup_cacheReceived_of_ne h1 ha

/-- For a session that is not aborted, the first loop calls `CacheBuffer` on the session's
old cache, or a fresh one, with each buffer of the session in the order received; the map
keeps the old entry when none arrived. -/
theorem lookup_foldlM_cacheReceived {A : List (PortName × Buffer)} {m m₁ : SessionCacheMap}
    (h : A.foldlM (fun m a => cacheReceived mem w names a.1 m a.2) m = some m₁)
    {s : SessionRef} (hs : w.isAbort s = false) :
    ∃ c₁, (A.filter (·.2.session = s)).foldlM (fun c a => c.cacheBuffer mem a.1 a.2)
        ((m.lookup s).getD (SessionUnmatchCache.create names)) = some c₁ ∧
      m₁.lookup s = if A.filter (·.2.session = s) = [] then m.lookup s else some c₁ := by
  induction A generalizing m with
  | nil => cases h; exact ⟨_, rfl, rfl⟩
  | cons a A ih =>
    rw [List.foldlM_cons] at h
    obtain ⟨m', h1, h2⟩ := Option.bind_eq_some.mp h
    obtain ⟨c₁, hfold, hlookup⟩ := ih h2
    by_cases ha : a.2.session = s
    · subst ha
      rcases cacheReceived_cases h1 with ⟨habort, -⟩ | ⟨-, c, hc, rfl⟩
      · simp [hs] at habort
      simp only [AList.lookup_insert, Option.getD_some] at hfold hlookup
      refine ⟨c₁, by simp [List.filter_cons, List.foldlM_cons, hc, hfold], ?_⟩
      rw [hlookup]
      simp only [List.filter_cons, decide_True, if_true, reduceCtorEq, if_false]
      split_ifs with hnil
      · rw [hnil] at hfold; cases hfold; rfl
      · rfl
    · rw [lookup_cacheReceived_of_ne h1 (Ne.symm ha)] at hfold hlookup
      rw [List.filter_cons_of_neg (by simpa using ha)]
      exact ⟨c₁, hfold, hlookup⟩

/-- A session that is not aborted and has an entry after the first loop has there what
`CacheBuffer` makes of its old cache, or a fresh one, with its buffers in the order received. -/
theorem foldlM_cacheBuffer_of_lookup {A : List (PortName × Buffer)} {m m₁ : SessionCacheMap}
    (h : A.foldlM (fun m a => cacheReceived mem w names a.1 m a.2) m = some m₁)
    {s : SessionRef} (hs : w.isAbort s = false) {c₀ : SessionUnmatchCache}
    (hc₀ : m₁.lookup s = some c₀) :
    (A.filter (·.2.session = s)).foldlM (fun c a => c.cacheBuffer mem a.1 a.2)
      ((m.lookup s).getD (SessionUnmatchCache.create names)) = some c₀ := by
  obtain ⟨c₁, hfold, hlook⟩ := lookup_foldlM_cacheReceived h hs
  split_ifs at hlook with hnil
  · rw [hnil, List.foldlM_nil, ← hlook, hc₀]
    rfl
  · rwa [← Option.some.inj (hlook.symm.trans hc₀)]

/-- The first loop returns when every `CacheBuffer` it makes does: when the climb of every
end-flag buffer of a session that is not aborted returns. -/
theorem foldlM_cacheReceived_isSome {A : List (PortName × Buffer)} (m : SessionCacheMap)
    (h : ∀ a ∈ A, w.isAbort a.2.session = false → a.2.indexInfo.isEndFlag →
      (climb mem mem.length a.2.indexInfo).isSome) :
    (A.foldlM (fun m a => cacheReceived mem w names a.1 m a.2) m).isSome := by
  induction A generalizing m with
  | nil => rfl
  | cons a A ih =>
    rw [List.forall_mem_cons] at h
    obtain ⟨m', hm'⟩ : ∃ m', cacheReceived mem w names a.1 m a.2 = some m' := by
      unfold cacheReceived
      split_ifs with habort
      · exact ⟨m, rfl⟩
      · obtain ⟨c, hc⟩ := Option.isSome_iff_exists.mp
          (SessionUnmatchCache.cacheBuffer_isSome
            (c := (m.lookup a.2.session).getD (SessionUnmatchCache.create names)) (p := a.1)
            (h.1 (by simpa using habort)))
        exact ⟨_, by simp only [hc]; rfl⟩
    rw [List.foldlM_cons, hm']
    exact ih _ h.2

/-- When the first loop returns, the climb of every end-flag buffer it received for a session
that is not aborted has returned. -/
theorem climb_isSome_of_foldlM_cacheReceived {A : List (PortName × Buffer)}
    {m m₁ : SessionCacheMap}
    (h : A.foldlM (fun m a => cacheReceived mem w names a.1 m a.2) m = some m₁) :
    ∀ a ∈ A, w.isAbort a.2.session = false → a.2.indexInfo.isEndFlag = true →
      (climb mem mem.length a.2.indexInfo).isSome := by
  induction A generalizing m with
  | nil => simp
  | cons a A ih =>
    rw [List.foldlM_cons] at h
    obtain ⟨m', h1, h2⟩ := Option.bind_eq_some.mp h
    refine List.forall_mem_cons.mpr ⟨fun habort hend => ?_, ih h2⟩
    rcases cacheReceived_cases h1 with ⟨habort', -⟩ | ⟨-, c, hc, -⟩
    · simp [habort] at habort'
    · exact SessionUnmatchCache.climb_isSome_of_cacheBuffer hc hend

/-- The first loop keeps every buffer of a cache with the cache's session. -/
theorem ownSessions_foldlM_cacheReceived {A : List (PortName × Buffer)} {m m₁ : SessionCacheMap}
    (h : A.foldlM (fun m a => cacheReceived mem w names a.1 m a.2) m = some m₁)
    (hown : OwnSessions m) : OwnSessions m₁ := by
  induction A generalizing m with
  | nil => cases h; exact hown
  | cons a A ih =>
    rw [List.foldlM_cons] at h
    obtain ⟨m', h1, h2⟩ := Option.bind_eq_some.mp h
    refine ih h2 fun s c hc p b hb => ?_
    by_cases hs : s = a.2.session
    · subst hs
      rcases cacheReceived_cases h1 with ⟨-, rfl⟩ | ⟨-, c', hc', rfl⟩
      · exact hown _ c hc p b hb
      rw [AList.lookup_insert] at hc
      obtain rfl := Option.some.inj hc
      have hstreams : c'.portStreams p = ((((m.lookup a.2.session).getD
          (SessionUnmatchCache.create names)).storeBuffer a.1 a.2).portStreams p) := by
        simp only [SessionUnmatchCache.portStreams, (SessionUnmatchCache.cacheBuffer_store hc').1]
      rw [hstreams, SessionUnmatchCache.portStreams_storeBuffer] at hb
      have hold : ∀ q, ∀ b ∈ (((m.lookup a.2.session).getD
          (SessionUnmatchCache.create names)).portStreams q).flatten, b.session = a.2.session := by
        cases hm : m.lookup a.2.session with
        | none => simp [SessionUnmatchCache.portStreams, SessionUnmatchCache.create]
        | some c₀ => exact hown _ c₀ hm
      split_ifs at hb with hp
      · rcases List.mem_append.mp ((PortStreams.flatten_pushBack_perm _ _).subset hb) with hb | hb
        · exact hold _ b hb
        · rw [List.mem_singleton.mp hb]
      · exact hold p b hb
    · rw [lookup_cacheReceived_of_ne h1 hs] at hc
      exact hown s c hc p b hb

end Receive

/-! ## The second loop -/

section Serve

variable {w : World} {s : SessionRef} {c : SessionUnmatchCache}

theorem serveSession_of_not_ioLive (h : w.ioLive s = false) :
    serveSession w s c = some (if c.allPortStreamEnd || w.isAbort s then none else some c, []) := by
  simp [serveSession, h]

/-- While its `SessionIO` is there, a session is served in full: its error is set, the
outputs of the drain loop are pushed, and the cache left holds no bucket. -/
theorem serveSession_of_ioLive (h : w.ioLive s = true) :
    ∃ (c' : SessionUnmatchCache) (pushes : List OutputBufferList), serveSession w s c =
        some (if c.allPortStreamEnd || w.isAbort s then none else some c',
          .setLastError s c.lastError :: pushes.map (.pushGraphOutputBuffer s)) ∧
      c'.portEndFlagMap = c.portEndFlagMap ∧
      (∀ p, (c'.portStreams p).buckets = []) ∧ pushes.length = c.maxBuckets ∧
      (∀ k (hk : k < pushes.length) p,
        pushes[k].lookup p = (c.portStreamsMap.lookup p).map (·.slice k)) ∧
      c'.lastError = c.lastError := by
  obtain ⟨c', pushes, hrun, hlen, hslice, hempty, hflags, herr⟩ :=
    SessionUnmatchCache.drainCache_spec c ∅ fun p _ => AList.lookup_empty p
  refine ⟨c', pushes, ?_, hflags, fun p => ?_, hlen, hslice, herr⟩
  · have hfuel : c.maxBuckets + 1 ≤ c.bucketCount + 1 :=
      Nat.succ_le_succ (SessionUnmatchCache.maxBuckets_le_bucketCount c)
    simp [serveSession, h, hrun, hfuel, SessionUnmatchCache.allPortStreamEnd, hflags]
  · rw [SessionUnmatchCache.portStreams, hempty]
    cases c.portStreamsMap.lookup p <;> rfl

theorem serveSession_isSome : (serveSession w s c).isSome := by
  cases h : w.ioLive s
  · simp [serveSession_of_not_ioLive h]
  · obtain ⟨c', pushes, he, -⟩ := serveSession_of_ioLive (c := c) h
    simp [he]

/-- What serving a session can give: without `SessionIO` the cache is kept or erased and no
call is made; with it, the error is set, the outputs of the drain loop are pushed, and the
cache kept holds no bucket. -/
theorem serveSession_cases {r : Option SessionUnmatchCache × List IOCall}
    (h : serveSession w s c = some r) :
    (w.ioLive s = false ∧ r = (if c.allPortStreamEnd || w.isAbort s then none else some c, [])) ∨
      (w.ioLive s = true ∧ ∃ (c' : SessionUnmatchCache) (pushes : List OutputBufferList),
        r = (if c.allPortStreamEnd || w.isAbort s then none else some c',
          .setLastError s c.lastError :: pushes.map (.pushGraphOutputBuffer s)) ∧
        c'.portEndFlagMap = c.portEndFlagMap ∧
        (∀ p, (c'.portStreams p).buckets = []) ∧ pushes.length = c.maxBuckets ∧
        (∀ k (hk : k < pushes.length) p,
          pushes[k].lookup p = (c.portStreamsMap.lookup p).map (·.slice k)) ∧
        c'.lastError = c.lastError) := by
  cases hl : w.ioLive s
  · rw [serveSession_of_not_ioLive hl] at h
    exact .inl ⟨rfl, (Option.some.inj h).symm⟩
  · obtain ⟨c', pushes, he, hrest⟩ := serveSession_of_ioLive (c := c) hl
    rw [he] at h
    exact .inr ⟨rfl, c', pushes, (Option.some.inj h).symm, hrest⟩

/-- Serving a session calls only that session's `SessionIO`. -/
theorem serveSession_session {r : Option SessionUnmatchCache × List IOCall}
    (h : serveSession w s c = some r) : ∀ call ∈ r.2, call.session = s := by
  rcases serveSession_cases h with ⟨-, rfl⟩ | ⟨-, c', pushes, rfl, -⟩ <;> simp [IOCall.session]

theorem foldlM_serveStep_isSome (l : List (Σ _ : SessionRef, SessionUnmatchCache))
    (acc : SessionCacheMap × List IOCall) : (l.foldlM (serveStep w) acc).isSome := by
  induction l generalizing acc with
  | nil => rfl
  | cons e l ih =>
    obtain ⟨r, hr⟩ := Option.isSome_iff_exists.mp (serveSession_isSome (w := w) (s := e.1) (c := e.2))
    rw [List.foldlM_cons, serveStep, hr]
    exact ih _

/-- Every call of the second loop is made while serving one of the entries it walks. -/
theorem mem_foldlM_serveStep {l : List (Σ _ : SessionRef, SessionUnmatchCache)}
    {acc : SessionCacheMap × List IOCall} {m' : SessionCacheMap} {calls : List IOCall}
    (h : l.foldlM (serveStep w) acc = some (m', calls)) {call : IOCall} (hc : call ∈ calls) :
    call ∈ acc.2 ∨ ∃ e ∈ l, ∃ r, serveSession w e.1 e.2 = some r ∧ call ∈ r.2 := by
  induction l generalizing acc with
  | nil => cases h; exact .inl hc
  | cons e l ih =>
    rw [List.foldlM_cons] at h
    obtain ⟨acc', h1, h2⟩ := Option.bind_eq_some.mp h
    obtain ⟨r, hr, rfl⟩ := Option.map_eq_some'.mp h1
    rcases ih h2 with hc | ⟨e', he', r', hr', hc'⟩
    · rcases List.mem_append.mp hc with hc | hc
      · exact .inl hc
      · exact .inr ⟨e, List.mem_cons_self _ _, r, hr, hc⟩
    · exact .inr ⟨e', List.mem_cons_of_mem _ he', r', hr', hc'⟩

/-- The second loop, seen from one session: an entry it does not walk is left as it was and
gets no call; the entry it walks for the session becomes what serving it gives, and the
calls on the session's `SessionIO` are those of that service. -/
theorem lookup_foldlM_serveStep {l : List (Σ _ : SessionRef, SessionUnmatchCache)}
    (hl : l.NodupKeys) {acc : SessionCacheMap × List IOCall} {m' : SessionCacheMap}
    {calls : List IOCall} (h : l.foldlM (serveStep w) acc = some (m', calls)) (s : SessionRef) :
    (l.dlookup s = none → m'.lookup s = acc.1.lookup s ∧ callsOn s calls = callsOn s acc.2) ∧
      ∀ c, l.dlookup s = some c → ∃ r, serveSession w s c = some r ∧
        m'.lookup s = r.1 ∧ callsOn s calls = callsOn s acc.2 ++ r.2 := by
  induction l generalizing acc with
  | nil => cases h; exact ⟨fun _ => ⟨rfl, rfl⟩, fun c hc => by simp at hc⟩
  | cons e l ih =>
    obtain ⟨t, ct⟩ := e
    rw [List.nodupKeys_cons] at hl
    rw [List.foldlM_cons] at h
    obtain ⟨acc', h1, h2⟩ := Option.bind_eq_some.mp h
    obtain ⟨r, hr, rfl⟩ := Option.map_eq_some'.mp h1
    obtain ⟨ihnone, ihsome⟩ := ih hl.2 h2
    by_cases hs : s = t
    · subst hs
      obtain ⟨hm, hp⟩ := ihnone (List.dlookup_eq_none.mpr hl.1)
      refine ⟨fun h => by simp at h, fun c hc => ?_⟩
      obtain rfl : ct = c := by simpa using hc
      refine ⟨r, hr, ?_, by rw [hp, callsOn_append, callsOn_eq_self (serveSession_session hr)]⟩
      rw [hm]
      cases r.1 <;> simp [AList.lookup_insert, AList.lookup_erase]
    · have hcalls : callsOn s r.2 = [] :=
        callsOn_eq_nil fun call hc => (serveSession_session hr call hc).trans_ne (Ne.symm hs)
      have hlook : (match r.1 with
          | some c => acc.1.insert t c
          | none => acc.1.erase t).lookup s = acc.1.lookup s := by
        cases r.1 <;> simp [AList.lookup_insert_ne hs, AList.lookup_erase_ne hs]
      rw [List.dlookup_cons_ne _ (⟨t, ct⟩ : Σ _ : SessionRef, SessionUnmatchCache) hs]
      refine ⟨fun hn => ?_, fun c hc => ?_⟩
      · obtain ⟨hm, hp⟩ := ihnone hn
        exact ⟨hm.trans hlook, by rw [hp, callsOn_append, hcalls, List.append_nil]⟩
      · obtain ⟨r', hr', hm, hp⟩ := ihsome c hc
        exact ⟨r', hr', hm, by rw [hp, callsOn_append, hcalls, List.append_nil]⟩

end Serve

/-! ## `Run` -/

section Run

variable {mem : IndexMemory} {w : World} {n n' : OutputUnmatchVirtualNode} {calls : List IOCall}

theorem mem_arrivals {ports : List InPort} {a : PortName × Buffer} :
    a ∈ arrivals ports ↔ ∃ port ∈ ports, a.1 = port.name ∧ a.2 ∈ port.queue := by
  simp only [arrivals, List.mem_flatMap, List.mem_map]
  constructor
  · rintro ⟨port, hport, b, hb, rfl⟩; exact ⟨port, hport, rfl, hb⟩
  · rintro ⟨port, hport, h1, h2⟩; exact ⟨port, hport, a.2, h2, by rw [← h1]⟩

/-- `Run` as its two loops: the first over the buffers received, the second over the map the
first leaves; every input queue is emptied. -/
theorem run_eq_some (h : run mem w n = some (n', calls)) :
    ∃ m₁, (arrivals n.inputPorts).foldlM (fun m a => cacheReceived mem w n.getInputNames a.1 m a.2)
        n.sessionCacheMap = some m₁ ∧
      m₁.entries.foldlM (serveStep w) (m₁, []) = some (n'.sessionCacheMap, calls) ∧
      n'.inputPorts = n.inputPorts.map fun port => { port with queue := [] } := by
  simp only [run, foldlM_recvPort] at h
  obtain ⟨m₁, h1, h2⟩ := Option.bind_eq_some.mp h
  obtain ⟨r, h3, h4⟩ := Option.bind_eq_some.mp h2
  obtain ⟨rfl, rfl⟩ := Prod.mk.inj (Option.some.inj h4).symm
  exact ⟨m₁, h1, h3, rfl⟩

/-- `Run` returns when the climb of every end-flag buffer it receives for a session that is
not aborted returns. -/
theorem run_isSome
    (h : ∀ port ∈ n.inputPorts, ∀ b ∈ port.queue, w.isAbort b.session = false →
      b.indexInfo.isEndFlag → (climb mem mem.length b.indexInfo).isSome) :
    (run mem w n).isSome := by
  have hrecv : ((arrivals n.inputPorts).foldlM
      (fun m a => cacheReceived mem w n.getInputNames a.1 m a.2) n.sessionCacheMap).isSome :=
    foldlM_cacheReceived_isSome _ fun a ha => by
      obtain ⟨port, hport, -, hb⟩ := mem_arrivals.mp ha
      exact h port hport a.2 hb
  obtain ⟨m₁, h1⟩ := Option.isSome_iff_exists.mp hrecv
  obtain ⟨r, h2⟩ := Option.isSome_iff_exists.mp (foldlM_serveStep_isSome (w := w) m₁.entries (m₁, []))
  simp [run, foldlM_recvPort, h1, h2]

/-- `Run` returns exactly when, for every buffer it receives that is an end flag of a session
not aborted, the loop of `CacheBuffer` climbing `InheritFrom` reaches depth zero after finitely
many iterations: on a chain that ends in a null pointer at positive depth, or that cycles,
`Run` does not return. -/
theorem run_isSome_iff :
    (run mem w n).isSome ↔ ∀ port ∈ n.inputPorts, ∀ b ∈ port.queue, w.isAbort b.session = false →
      b.indexInfo.isEndFlag = true → ∃ fuel, (climb mem fuel b.indexInfo).isSome := by
  constructor
  · intro h port hport b hb habort hend
    obtain ⟨⟨n', calls⟩, hrun⟩ := Option.isSome_iff_exists.mp h
    obtain ⟨m₁, h1, -⟩ := run_eq_some hrun
    exact ⟨mem.length, climb_isSome_of_foldlM_cacheReceived h1 (port.name, b)
      (mem_arrivals.mpr ⟨port, hport, rfl, hb⟩) habort hend⟩
  · intro h
    refine run_isSome fun port hport b hb habort hend => ?_
    obtain ⟨fuel, hfuel⟩ := h port hport b hb habort hend
    obtain ⟨r, hr⟩ := Option.isSome_iff_exists.mp hfuel
    simp [climb_of_climb_some hr]

/-- `Run` seen from one session: after the first loop has left the map `m₁`, the session
either has no entry and gets no call, or its entry is served, and the calls on its
`SessionIO` are those of that service. -/
theorem run_session (h : run mem w n = some (n', calls)) (s : SessionRef) :
    ∃ m₁, (arrivals n.inputPorts).foldlM
        (fun m a => cacheReceived mem w n.getInputNames a.1 m a.2) n.sessionCacheMap = some m₁ ∧
      ((m₁.lookup s = none ∧ n'.sessionCacheMap.lookup s = none ∧ callsOn s calls = []) ∨
        ∃ c r, m₁.lookup s = some c ∧ serveSession w s c = some r ∧
          n'.sessionCacheMap.lookup s = r.1 ∧ callsOn s calls = r.2) := by
  obtain ⟨m₁, h1, h2, -⟩ := run_eq_some h
  obtain ⟨hnone, hsome⟩ := lookup_foldlM_serveStep m₁.nodupKeys h2 s
  refine ⟨m₁, h1, ?_⟩
  cases hd : m₁.entries.dlookup s with
  | none => exact .inl ⟨hd, (hnone hd).1.trans hd, (hnone hd).2⟩
  | some c =>
    obtain ⟨r, hr, hm, hp⟩ := hsome c hd
    exact .inr ⟨c, r, hd, hr, hm, hp⟩

/-- After `Run`, the cache of every session whose `SessionIO` is there holds no bucket. -/
theorem run_drains_live_sessions (h : run mem w n = some (n', calls)) {s : SessionRef}
    (hlive : w.ioLive s = true) {c : SessionUnmatchCache}
    (hc : n'.sessionCacheMap.lookup s = some c) : ∀ p, (c.portStreams p).buckets = [] := by
  obtain ⟨m₁, -, ⟨-, hnone, -⟩ | ⟨c₀, r, -, hr, hm, -⟩⟩ := run_session h s
  · simp [hnone] at hc
  · rcases serveSession_cases hr with ⟨hl, -⟩ | ⟨-, c', pushes, rfl, -, hempty, -⟩
    · simp [hl] at hlive
    · rw [hc] at hm
      split_ifs at hm
      cases hm
      exact hempty

/-- Each buffer of a session that is neither aborted nor without `SessionIO` is pushed by the
`Run` that receives it: given a cache without buckets before, the buffers pushed under port
`p` are the valid buffers of the session received on `p`, read out of a stream map in which
they were stored in the order received. -/
theorem deliveredOn_run (h : run mem w n = some (n', calls)) {s : SessionRef}
    (habort : w.isAbort s = false) (hlive : w.ioLive s = true)
    (hdrained : ∀ c, n.sessionCacheMap.lookup s = some c → ∀ p, (c.portStreams p).buckets = [])
    (p : PortName) :
    deliveredOn s p calls =
      ((n.received s p).foldl PortStreams.pushBack .empty).flatten.filter Buffer.isValid := by
  obtain ⟨m₁, h1, ⟨hd, -, hp⟩ | ⟨c, r, hd, hr, -, hp⟩⟩ := run_session h s <;>
    obtain ⟨c₁, hfold, hlook⟩ := lookup_foldlM_cacheReceived h1 habort
  · have hnil : (arrivals n.inputPorts).filter (·.2.session = s) = [] := by
      by_contra hne
      simp [hd, hne] at hlook
    simp [deliveredOn, ← pushesTo_callsOn s calls, hp, received_eq_arrivals, hnil]
  · have hold : ∀ q, ((n.sessionCacheMap.lookup s).getD
        (SessionUnmatchCache.create n.getInputNames)).portStreams q = .empty := by
      cases hm : n.sessionCacheMap.lookup s with
      | none => exact fun q => rfl
      | some c => exact fun q => PortStreams.eq_empty_of_buckets_eq_nil (hdrained c hm q)
    have hc : c = c₁ := by
      split_ifs at hlook with hnil
      · rw [hnil] at hfold
        rw [← Option.some.inj hfold, hlook.symm.trans hd, Option.getD_some]
      · exact Option.some.inj (hd.symm.trans hlook)
    subst hc
    rcases serveSession_cases hr with ⟨hl, -⟩ | ⟨-, c', pushes, rfl, -, -, hlen, hslice, -⟩
    · simp [hl] at hlive
    rw [deliveredOn, ← pushesTo_callsOn, hp, pushesTo_cons_setLastError, pushesTo_map_push,
      SessionUnmatchCache.flatMap_lookup_pushes hlen hslice p,
      (SessionUnmatchCache.foldlM_cacheBuffer hfold).2 p, hold p, received_eq_arrivals]

/-- `Run` pushes nothing to an aborted session whose cache, if its `SessionIO` is there, holds
no bucket, and it erases the session's entry. -/
theorem run_aborted_session (h : run mem w n = some (n', calls)) {s : SessionRef}
    (habort : w.isAbort s = true)
    (hdrained : w.ioLive s = true →
      ∀ c, n.sessionCacheMap.lookup s = some c → ∀ p, (c.portStreams p).buckets = []) :
    pushesTo s calls = [] ∧ n'.sessionCacheMap.lookup s = none := by
  obtain ⟨m₁, h1, ⟨-, hnone, hp⟩ | ⟨c, r, hd, hr, hm, hp⟩⟩ := run_session h s
  · exact ⟨by rw [← pushesTo_callsOn, hp, pushesTo_nil], hnone⟩
  rw [← pushesTo_callsOn, hp, hm]
  rcases serveSession_cases hr with ⟨-, rfl⟩ | ⟨hl, c', pushes, rfl, -, -, hlen, -⟩
  · simp [habort]
  · have hc : n.sessionCacheMap.lookup s = some c :=
      (lookup_foldlM_cacheReceived_of_abort h1 habort).symm.trans hd
    rw [SessionUnmatchCache.maxBuckets_eq_zero_of_buckets_eq_nil (hdrained hl c hc),
      List.length_eq_zero] at hlen
    simp [hlen, habort]

/-- Every buffer `Run` pushes to a session is in a slice of `PopCache` on a port's stream map
of the cache the session has after the first loop. -/
theorem mem_slice_of_mem_run (h : run mem w n = some (n', calls)) {s : SessionRef}
    {out : OutputBufferList} (hcall : IOCall.pushGraphOutputBuffer s out ∈ calls) {p : PortName}
    {bs : List Buffer} (hbs : out.lookup p = some bs) {b : Buffer} (hb : b ∈ bs) :
    ∃ m₁ c k, (arrivals n.inputPorts).foldlM
        (fun m a => cacheReceived mem w n.getInputNames a.1 m a.2) n.sessionCacheMap = some m₁ ∧
      m₁.lookup s = some c ∧ b ∈ (c.portStreams p).slice k := by
  obtain ⟨m₁, h1, h2, -⟩ := run_eq_some h
  rcases mem_foldlM_serveStep h2 hcall with hc | ⟨e, he, r, hr, hc⟩
  · simp at hc
  rcases serveSession_cases hr with ⟨-, rfl⟩ | ⟨-, c', pushes, rfl, -, -, -, hslice, -⟩
  · simp at hc
  simp only [List.mem_cons, reduceCtorEq, false_or, List.mem_map,
    IOCall.pushGraphOutputBuffer.injEq] at hc
  obtain ⟨o, ho, rfl, rfl⟩ := hc
  obtain ⟨k, hk⟩ := SessionUnmatchCache.mem_slice_of_mem_push hslice ho hbs hb
  exact ⟨m₁, e.2, k, h1, (List.mem_dlookup_iff m₁.nodupKeys).mpr he, hk⟩

/-- `Run` keeps every buffer of a cache with the cache's session, and every buffer it pushes
goes to its own session. -/
theorem run_ownSessions (h : run mem w n = some (n', calls)) (hown : OwnSessions n.sessionCacheMap) :
    OwnSessions n'.sessionCacheMap ∧
      ∀ s out, IOCall.pushGraphOutputBuffer s out ∈ calls →
        ∀ p bs, out.lookup p = some bs → ∀ b ∈ bs, b.session = s := by
  refine ⟨fun s c hc p b hb => ?_, fun s out hcall p bs hbs b hb => ?_⟩
  · obtain ⟨m₁, h1, ⟨-, hnone, -⟩ | ⟨c₀, r, hd, hr, hm, -⟩⟩ := run_session h s
    · simp [hnone] at hc
    rw [hc] at hm
    rcases serveSession_cases hr with ⟨-, rfl⟩ | ⟨-, c', pushes, rfl, -, hempty, -⟩ <;>
      split_ifs at hm <;> cases hm
    · exact ownSessions_foldlM_cacheReceived h1 hown s c hd p b hb
    · simp [PortStreams.flatten, hempty p] at hb
  · obtain ⟨m₁, c, k, h1, hc, hk⟩ := mem_slice_of_mem_run h hcall hbs hb
    exact ownSessions_foldlM_cacheReceived h1 hown s c hc p b (PortStreams.mem_flatten_of_mem_slice hk)

/-- `Run` pushes no end flag and no placeholder: every output is a slice of `PopCache`. -/
theorem isValid_of_mem_run (h : run mem w n = some (n', calls)) {s : SessionRef}
    {out : OutputBufferList} (hcall : IOCall.pushGraphOutputBuffer s out ∈ calls) {p : PortName}
    {bs : List Buffer} (hbs : out.lookup p = some bs) {b : Buffer} (hb : b ∈ bs) :
    b.isValid = true := by
  obtain ⟨_, _, _, -, -, hk⟩ := mem_slice_of_mem_run h hcall hbs hb
  exact PortStreams.isValid_of_mem_slice hk

/-- A session whose `SessionIO` is gone and which is not aborted gets no call from `Run`; and
if its cache is kept, the cache has lost nothing: each port's stream map is the one before with
every buffer of the session received on that port stored in it, in order.  The buffers wait
there until all the session's ports have ended or it is aborted. -/
theorem run_retains_released_session (h : run mem w n = some (n', calls)) {s : SessionRef}
    (hlive : w.ioLive s = false) (habort : w.isAbort s = false) :
    callsOn s calls = [] ∧ ∀ c', n'.sessionCacheMap.lookup s = some c' → ∀ p,
      c'.portStreams p = (n.received s p).foldl PortStreams.pushBack
        (((n.sessionCacheMap.lookup s).getD
          (SessionUnmatchCache.create n.getInputNames)).portStreams p) := by
  obtain ⟨m₁, h1, ⟨-, hn', hp⟩ | ⟨c₀, r, hd, hr, hn', hp⟩⟩ := run_session h s
  · exact ⟨hp, fun c' hc' => by simp [hn'] at hc'⟩
  rcases serveSession_cases hr with ⟨-, rfl⟩ | ⟨hl, -⟩
  · refine ⟨hp, fun c' hc' p => ?_⟩
    obtain rfl : c₀ = c' := by
      rw [hn'] at hc'
      split_ifs at hc'
      exact Option.some.inj hc'
    rw [(SessionUnmatchCache.foldlM_cacheBuffer (foldlM_cacheBuffer_of_lookup h1 habort hd)).2 p,
      received_eq_arrivals]
  · simp [hl] at hlive

theorem run_retains_released_session_data_buffer :
    let b : Buffer := ⟨⟨⟨1, 7⟩, false, false, ⟨none, 0⟩⟩, none⟩
    let w : World := ⟨fun _ => false, fun _ => false⟩
    let n : OutputUnmatchVirtualNode := ⟨[⟨"in", [b]⟩], ∅⟩
    ∃ n' calls, (run [] w n = some (n', calls) ∧ w.ioLive 7 = false ∧ w.isAbort 7 = false) ∧
      callsOn 7 calls = [] ∧ ∀ c', n'.sessionCacheMap.lookup 7 = some c' → ∀ p,
        c'.portStreams p = (n.received 7 p).foldl PortStreams.pushBack
          (((n.sessionCacheMap.lookup 7).getD
            (SessionUnmatchCache.create n.getInputNames)).portStreams p) := by
  intro b w n
  obtain ⟨⟨n', calls⟩, hrun⟩ := Option.isSome_iff_exists.mp (show (run [] w n).isSome by rfl)
  exact ⟨n', calls, ⟨hrun, rfl, rfl⟩, run_retains_released_session hrun rfl rfl⟩

end Run

end OutputUnmatchVirtualNode

end ModelBox
