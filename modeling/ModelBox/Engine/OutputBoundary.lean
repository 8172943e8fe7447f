import ModelBox.Node.OutputUnmatchVirtualNode

/-!
# The output boundary of a running graph

The sessions, the input queues of the `OutputVirtualNode` and the `OutputUnmatchVirtualNode`
with its session caches, as one state machine.  Its steps are what can happen between and
during `Run`s: a buffer reaches an input port of either node, a session is aborted, a caller
drops its `SessionIO`, and either node runs.  Each step records the calls it makes on the
sessions' `SessionIO`s.

Over every reachable state two facts hold (`Invariant`): a cache holds only buffers of its
own session, and the cache of a session whose `SessionIO` is there holds no bucket, since
every `Run` drains it.  From them: each buffer of a live session is pushed exactly once, by
the `Run` that receives it; over a whole run of steps, what is pushed to a live session and
what still waits for it is what waited at the start and what was sent, stream by stream; and
after `Session::Abort()` nothing of the session is pushed again and its cache entry goes at
the next `Run` of the unmatch node, for good.
-/

namespace ModelBox

/-- The output side of a running graph. -/
structure OutputBoundary where
  world : World
  outputPorts : List InPort
  unmatch : OutputUnmatchVirtualNode

/-- `Send` into the input port named `p`: the buffer joins the back of its queue. -/
def enqueue (ports : List InPort) (p : PortName) (b : Buffer) : List InPort :=
  ports.map fun port => if port.name = p then { port with queue := port.queue ++ [b] } else port

namespace OutputBoundary

/-- The boundary when the graph starts: no buffer queued and no session cached. -/
def init (w : World) (outputNames unmatchNames : List PortName) : OutputBoundary :=
  ⟨w, outputNames.map (⟨·, []⟩), ⟨unmatchNames.map (⟨·, []⟩), ∅⟩⟩

/-- What can happen at the boundary. -/
inductive Action
  | sendOutput (p : PortName) (b : Buffer)
  | sendUnmatch (p : PortName) (b : Buffer)
  | abort (s : SessionRef)
  | release (s : SessionRef)
  | runOutput (gen : GenInputMatchStreamData)
  | runUnmatch (mem : IndexMemory)

/-- One step of the boundary and the calls it makes on `SessionIO`s.  When
`GenInputMatchStreamData` fails, `OutputVirtualNode::Run` returns its error; what the match
manager took from the queues before it failed is not in the sources, so the queues it leaves
are any. -/
inductive Step : OutputBoundary → Action → OutputBoundary → List IOCall → Prop
  | sendOutput (st : OutputBoundary) (p : PortName) (b : Buffer) :
      Step st (.sendOutput p b) { st with outputPorts := enqueue st.outputPorts p b } []
  | sendUnmatch (st : OutputBoundary) (p : PortName) (b : Buffer) :
      Step st (.sendUnmatch p b)
        { st with unmatch := { st.unmatch with inputPorts := enqueue st.unmatch.inputPorts p b } } []
  | abort (st : OutputBoundary) (s : SessionRef) :
      Step st (.abort s) { st with world := st.world.abort s } []
  | release (st : OutputBoundary) (s : SessionRef) :
      Step st (.release s) { st with world := st.world.release s } []
  | runOutput (st : OutputBoundary) (gen : GenInputMatchStreamData) (ports : List InPort)
      (calls : List IOCall) (h : OutputVirtualNode.run gen st.world st.outputPorts = some (ports, calls)) :
      Step st (.runOutput gen) { st with outputPorts := ports } calls
  | runOutputFails (st : OutputBoundary) (gen : GenInputMatchStreamData) (ports : List InPort)
      (h : gen (OutputVirtualNode.eraseInvalidData st.world st.outputPorts) = none) :
      Step st (.runOutput gen) { st with outputPorts := ports } []
  | runUnmatch (st : OutputBoundary) (mem : IndexMemory) (n : OutputUnmatchVirtualNode)
      (calls : List IOCall) (h : st.unmatch.run mem st.world = some (n, calls)) :
      Step st (.runUnmatch mem) { st with unmatch := n } calls

/-- The states a graph's boundary can reach from its start. -/
inductive Reachable : OutputBoundary → Prop
  | init (w : World) (outputNames unmatchNames : List PortName) :
      Reachable (init w outputNames unmatchNames)
  | step {st st' : OutputBoundary} {a : Action} {calls : List IOCall} :
      Reachable st → Step st a st' calls → Reachable st'

/-- A run of steps and the calls they make, in order. -/
inductive Execution : OutputBoundary → List Action → OutputBoundary → List IOCall → Prop
  | done (st : OutputBoundary) : Execution st [] st []
  | step {st st₁ st' : OutputBoundary} {a : Action} {acts : List Action}
      {calls₁ calls₂ : List IOCall} :
      Step st a st₁ calls₁ → Execution st₁ acts st' calls₂ →
      Execution st (a :: acts) st' (calls₁ ++ calls₂)

/-! ## The invariant -/

/-- What holds in every reachable state: caches hold only their own session's buffers, and
the cache of a session whose `SessionIO` is there holds no bucket. -/
structure Invariant (st : OutputBoundary) : Prop where
  own : OutputUnmatchVirtualNode.OwnSessions st.unmatch.sessionCacheMap
  drained : ∀ s c, st.unmatch.sessionCacheMap.lookup s = some c → st.world.ioLive s = true →
    ∀ p, (c.portStreams p).buckets = []

theorem invariant_init (w : World) (outputNames unmatchNames : List PortName) :
    Invariant (init w outputNames unmatchNames) :=
  ⟨fun s c hc => by simp [init] at hc, fun s c hc => by simp [init] at hc⟩

/-- Every step keeps the invariant: only `Run` of the unmatch node changes the caches, and it
drains every cache whose `SessionIO` is there; a released `SessionIO` never comes back. -/
theorem Step.invariant {st st' : OutputBoundary} {a : Action} {calls : List IOCall}
    (h : Step st a st' calls) (hinv : Invariant st) : Invariant st' := by
  cases h with
  | sendOutput | sendUnmatch | abort | runOutput | runOutputFails =>
    exact ⟨hinv.own, hinv.drained⟩
  | release s =>
    refine ⟨hinv.own, fun t c hc hlive => hinv.drained t c hc ?_⟩
    simp only [World.release_ioLive, Bool.and_eq_true, decide_eq_true_eq] at hlive
    exact hlive.2
  | runUnmatch mem n calls hrun =>
    exact ⟨(OutputUnmatchVirtualNode.run_ownSessions hrun hinv.own).1,
      fun s c hc hlive => OutputUnmatchVirtualNode.run_drains_live_sessions hrun hlive hc⟩

theorem Reachable.invariant {st : OutputBoundary} (h : Reachable st) : Invariant st := by
  induction h with
  | init w outputNames unmatchNames => exact invariant_init w outputNames unmatchNames
  | step _ hstep ih => exact hstep.invariant ih

/-! ## Delivery by the unmatch node -/

/-- From any reachable state, a `Run` of the `OutputUnmatchVirtualNode` returns when the
chains of the end-flag buffers it receives for sessions not aborted keep expand's invariant.
It leaves every input queue empty, so no buffer is received by two `Run`s.  Every buffer it
pushes goes to its own session.  For a session that is neither aborted nor without
`SessionIO`, the buffers pushed under port `p` are, once each, the valid buffers of the
session received on `p` by this `Run`, those of one stream in the order received; and the
session's cache holds no bucket afterwards. -/
theorem run_delivers_received_once {st : OutputBoundary} (hst : Reachable st) (mem : IndexMemory)
    (hchain : ∀ port ∈ st.unmatch.inputPorts, ∀ b ∈ port.queue,
      st.world.isAbort b.session = false → b.indexInfo.isEndFlag → ChainWellFormed mem b.indexInfo) :
    ∃ n calls, st.unmatch.run mem st.world = some (n, calls) ∧
      n.inputPorts = st.unmatch.inputPorts.map (fun port => { port with queue := [] }) ∧
      (∀ s out, IOCall.pushGraphOutputBuffer s out ∈ calls →
        ∀ p bs, out.lookup p = some bs → ∀ b ∈ bs, b.session = s) ∧
      ∀ S, st.world.isAbort S = false → st.world.ioLive S = true →
        (∀ p, (deliveredOn S p calls).Perm ((st.unmatch.received S p).filter Buffer.isValid) ∧
          ∀ addr, (deliveredOn S p calls).filter (·.streamAddr = addr) =
            ((st.unmatch.received S p).filter (·.streamAddr = addr)).filter Buffer.isValid) ∧
        ∀ c, n.sessionCacheMap.lookup S = some c → ∀ p, (c.portStreams p).buckets = [] := by
  have hinv := hst.invariant
  obtain ⟨⟨n, calls⟩, hrun⟩ := Option.isSome_iff_exists.mp
    (OutputUnmatchVirtualNode.run_isSome fun port hp b hb habort hend =>
      (hchain port hp b hb habort hend).climb_isSome)
  obtain ⟨-, -, -, hports⟩ := OutputUnmatchVirtualNode.run_eq_some hrun
  refine ⟨n, calls, hrun, hports, (OutputUnmatchVirtualNode.run_ownSessions hrun hinv.own).2,
    fun S habort hlive => ⟨fun p => ?_, fun c hc =>
      OutputUnmatchVirtualNode.run_drains_live_sessions hrun hlive hc⟩⟩
  rw [OutputUnmatchVirtualNode.deliveredOn_run hrun habort hlive
    (fun c hc => hinv.drained S c hc hlive) p]
  refine ⟨((PortStreams.flatten_foldl_pushBack_perm _ _).trans ?_).filter _,
    PortStreams.filter_flatten_foldl_pushBack _ _⟩
  simp

theorem run_delivers_received_once_one_buffer :
    let b : Buffer := ⟨⟨⟨1, 7⟩, false, false, ⟨none, 0⟩⟩, none⟩
    let st₀ := init ⟨fun _ => false, fun _ => true⟩ [] ["in"]
    let st : OutputBoundary :=
      { st₀ with unmatch := { st₀.unmatch with inputPorts := enqueue st₀.unmatch.inputPorts "in" b } }
    Reachable st ∧
      (∀ port ∈ st.unmatch.inputPorts, ∀ b ∈ port.queue,
        st.world.isAbort b.session = false → b.indexInfo.isEndFlag →
          ChainWellFormed [] b.indexInfo) ∧
      ∃ n calls, st.unmatch.run [] st.world = some (n, calls) ∧
        n.inputPorts = st.unmatch.inputPorts.map (fun port => { port with queue := [] }) ∧
        (∀ s out, IOCall.pushGraphOutputBuffer s out ∈ calls →
          ∀ p bs, out.lookup p = some bs → ∀ b ∈ bs, b.session = s) ∧
        ∀ S, st.world.isAbort S = false → st.world.ioLive S = true →
          (∀ p, (deliveredOn S p calls).Perm ((st.unmatch.received S p).filter Buffer.isValid) ∧
            ∀ addr, (deliveredOn S p calls).filter (·.streamAddr = addr) =
              ((st.unmatch.received S p).filter (·.streamAddr = addr)).filter Buffer.isValid) ∧
          ∀ c, n.sessionCacheMap.lookup S = some c → ∀ p, (c.portStreams p).buckets = [] := by
  intro b st₀ st
  have hst : Reachable st := .step (.init _ _ _) (.sendUnmatch _ "in" b)
  have hchain : ∀ port ∈ st.unmatch.inputPorts, ∀ b ∈ port.queue,
      st.world.isAbort b.session = false → b.indexInfo.isEndFlag →
        ChainWellFormed [] b.indexInfo := by
    intro port hp b' hb' _ hend
    simp [st, st₀, init, enqueue] at hp
    subst hp
    simp at hb'
    subst hb'
    simp [b] at hend
  exact ⟨hst, hchain, run_delivers_received_once hst [] hchain⟩

/-- From any reachable state, a `Run` of the `OutputUnmatchVirtualNode` with nothing waiting
on its input ports pushes nothing: it only sets again, on the `SessionIO` of each cached
session that has one, the error the cache remembers. -/
theorem idle_run_only_sets_last_error {st : OutputBoundary} (hst : Reachable st)
    (hidle : ∀ port ∈ st.unmatch.inputPorts, port.queue = []) {mem : IndexMemory}
    {n : OutputUnmatchVirtualNode} {calls : List IOCall}
    (hrun : st.unmatch.run mem st.world = some (n, calls)) (S : SessionRef) :
    callsOn S calls = match st.unmatch.sessionCacheMap.lookup S with
      | some c => if st.world.ioLive S then [.setLastError S c.lastError] else []
      | none => [] := by
  have harr : OutputUnmatchVirtualNode.arrivals st.unmatch.inputPorts = [] := by
    simpa [OutputUnmatchVirtualNode.arrivals] using hidle
  obtain ⟨m₁, h1, ⟨hd, -, hp⟩ | ⟨c, r, hd, hr, -, hp⟩⟩ :=
    OutputUnmatchVirtualNode.run_session hrun S <;>
    rw [harr, List.foldlM_nil] at h1 <;> cases h1 <;> rw [hd, hp]
  rcases OutputUnmatchVirtualNode.serveSession_cases hr with
    ⟨hl, rfl⟩ | ⟨hl, c', pushes, rfl, -, -, hlen, -⟩
  · simp [hl]
  · rw [SessionUnmatchCache.maxBuckets_eq_zero_of_buckets_eq_nil
      (hst.invariant.drained S c hd hl), List.length_eq_zero] at hlen
    simp [hl, hlen]

theorem idle_run_only_sets_last_error_after_data :
    let b : Buffer := ⟨⟨⟨1, 7⟩, false, false, ⟨none, 0⟩⟩, none⟩
    let st₀ := init ⟨fun _ => false, fun _ => true⟩ [] ["in"]
    let st₁ : OutputBoundary := { st₀ with unmatch := { st₀.unmatch with
      inputPorts := enqueue st₀.unmatch.inputPorts "in" b } }
    ∃ n₁ calls₁ n calls, st₁.unmatch.run [] st₁.world = some (n₁, calls₁) ∧
      (Reachable ⟨st₁.world, st₁.outputPorts, n₁⟩ ∧ (∀ port ∈ n₁.inputPorts, port.queue = []) ∧
        n₁.run [] st₁.world = some (n, calls)) ∧
      callsOn 7 calls = match n₁.sessionCacheMap.lookup 7 with
        | some c => if st₁.world.ioLive 7 then [.setLastError 7 c.lastError] else []
        | none => [] := by
  intro b st₀ st₁
  obtain ⟨⟨n₁, calls₁⟩, h₁⟩ :=
    Option.isSome_iff_exists.mp (show (st₁.unmatch.run [] st₁.world).isSome by rfl)
  have hst : Reachable ⟨st₁.world, st₁.outputPorts, n₁⟩ :=
    .step (.step (.init _ [] ["in"]) (.sendUnmatch st₀ "in" b)) (.runUnmatch st₁ [] n₁ calls₁ h₁)
  have hidle : ∀ port ∈ n₁.inputPorts, port.queue = [] := by
    obtain ⟨-, -, -, hports⟩ := OutputUnmatchVirtualNode.run_eq_some h₁
    simp [hports]
  have hsome : (n₁.run [] st₁.world).isSome :=
    OutputUnmatchVirtualNode.run_isSome fun port hp b hb => by simp [hidle port hp] at hb
  obtain ⟨⟨n, calls⟩, h₂⟩ := Option.isSome_iff_exists.mp hsome
  exact ⟨n₁, calls₁, n, calls, h₁, ⟨hst, hidle, h₂⟩, idle_run_only_sets_last_error hst hidle h₂ 7⟩

/-! ## Delivery over whole runs -/

/-- The buffers of `S` that an action sends into the input port `p` of the unmatch node. -/
def Action.sentUnmatch (S : SessionRef) (p : PortName) : Action → List Buffer
  | sendUnmatch q b => if q = p ∧ b.session = S then [b] else []
  | _ => []

theorem map_name_enqueue (ports : List InPort) (q : PortName) (b : Buffer) :
    (enqueue ports q b).map (·.name) = ports.map (·.name) := by
  simp only [enqueue, List.map_map]
  exact List.map_congr_left fun port _ => by by_cases h : port.name = q <;> simp [h]

/-- With distinct port names, sending into the port `q` adds the buffer behind what waits on
`p` when `q` is `p`, and changes nothing there otherwise. -/
theorem received_enqueue {n : OutputUnmatchVirtualNode} {p : PortName}
    (hnodup : n.getInputNames.Nodup) (hp : p ∈ n.getInputNames) (q : PortName) (b : Buffer)
    (S : SessionRef) :
    ({ n with inputPorts := enqueue n.inputPorts q b } : OutputUnmatchVirtualNode).received S p =
      n.received S p ++ if q = p ∧ b.session = S then [b] else [] := by
  obtain ⟨port, hport, rfl⟩ := List.mem_map.mp hp
  simp only [OutputUnmatchVirtualNode.received, enqueue, filter_map_update InPort.name
    (fun port => { port with queue := port.queue ++ [b] }) (fun _ => rfl)]
  by_cases hq : port.name = q
  · subst hq
    rw [if_pos rfl, filter_key_eq_singleton InPort.name hnodup hport]
    by_cases hb : b.session = S <;> simp [hb, List.filter_append]
  · simp [hq, Ne.symm hq]

theorem Step.getInputNames {st st' : OutputBoundary} {a : Action} {calls : List IOCall}
    (h : Step st a st' calls) : st'.unmatch.getInputNames = st.unmatch.getInputNames := by
  cases h with
  | sendUnmatch p b => exact map_name_enqueue _ _ _
  | runUnmatch mem n calls hrun =>
    obtain ⟨-, -, -, hports⟩ := OutputUnmatchVirtualNode.run_eq_some hrun
    simp [OutputUnmatchVirtualNode.getInputNames, hports]
  | _ => rfl

theorem Step.isAbort_of_ne {st st' : OutputBoundary} {a : Action} {calls : List IOCall}
    (h : Step st a st' calls) {S : SessionRef} (ha : a ≠ .abort S)
    (hS : st.world.isAbort S = false) : st'.world.isAbort S = false := by
  cases h with
  | abort t =>
    simp only [World.abort_isAbort, hS, Bool.or_false, decide_eq_false_iff_not]
    rintro rfl
    exact ha rfl
  | _ => exact hS

theorem Step.ioLive_of_ne {st st' : OutputBoundary} {a : Action} {calls : List IOCall}
    (h : Step st a st' calls) {S : SessionRef} (ha : a ≠ .release S)
    (hS : st.world.ioLive S = true) : st'.world.ioLive S = true := by
  cases h with
  | release t =>
    simp only [World.release_ioLive, hS, Bool.and_true, decide_eq_true_eq]
    rintro rfl
    exact ha rfl
  | _ => exact hS

/-- One step, on the valid buffers of `S` at port `p` and stream by stream: what it pushes,
followed by what then waits, is what waited before followed by what it sends. -/
theorem Step.accounts {st st' : OutputBoundary} {a : Action} {calls : List IOCall}
    (hinv : Invariant st) (h : Step st a st' calls) {S : SessionRef} {p : PortName}
    (habort : st.world.isAbort S = false) (hlive : st.world.ioLive S = true)
    (hout : ∀ gen, a ≠ .runOutput gen) (hnodup : st.unmatch.getInputNames.Nodup)
    (hp : p ∈ st.unmatch.getInputNames) (addr : Nat) :
    (deliveredOn S p calls ++ (st'.unmatch.received S p).filter Buffer.isValid).filter
        (·.streamAddr = addr) =
      ((st.unmatch.received S p ++ a.sentUnmatch S p).filter Buffer.isValid).filter
        (·.streamAddr = addr) := by
  cases h with
  | sendOutput | abort | release => simp [Action.sentUnmatch, deliveredOn]
  | sendUnmatch q b => simp [Action.sentUnmatch, deliveredOn, received_enqueue hnodup hp]
  | runOutput gen => exact absurd rfl (hout gen)
  | runOutputFails gen => exact absurd rfl (hout gen)
  | runUnmatch mem n calls hrun =>
    obtain ⟨-, -, -, hports⟩ := OutputUnmatchVirtualNode.run_eq_some hrun
    have hempty : n.received S p = [] := by
      simp [OutputUnmatchVirtualNode.received, hports, List.filter_map]
    rw [OutputUnmatchVirtualNode.deliveredOn_run hrun habort hlive
      (fun c hc => hinv.drained S c hc hlive) p, hempty]
    simp only [Action.sentUnmatch, List.filter_nil, List.append_nil]
    rw [PortStreams.filter_flatten_foldl_pushBack, filter_streamAddr_comm]

/-- `Step.accounts` over a run of steps in which `S` stays neither aborted nor released and the
`OutputVirtualNode` does not run. -/
theorem Execution.accounts {st st' : OutputBoundary} {acts : List Action} {calls : List IOCall}
    (hexec : Execution st acts st' calls) (hst : Reachable st) {S : SessionRef} {p : PortName}
    (habort : st.world.isAbort S = false) (hlive : st.world.ioLive S = true)
    (hacts : ∀ a ∈ acts, a ≠ .abort S ∧ a ≠ .release S ∧ ∀ gen, a ≠ .runOutput gen)
    (hnodup : st.unmatch.getInputNames.Nodup) (hp : p ∈ st.unmatch.getInputNames) (addr : Nat) :
    (deliveredOn S p calls ++ (st'.unmatch.received S p).filter Buffer.isValid).filter
        (·.streamAddr = addr) =
      ((st.unmatch.received S p ++ acts.flatMap (Action.sentUnmatch S p)).filter
        Buffer.isValid).filter (·.streamAddr = addr) := by
  induction hexec with
  | done => simp [deliveredOn]
  | step hstep _ ih =>
    obtain ⟨ha, hr, ho⟩ := hacts _ (List.mem_cons_self _ _)
    have hnames := hstep.getInputNames
    have hs := hstep.accounts hst.invariant habort hlive ho hnodup hp addr
    have hrest := ih (hst.step hstep) (hstep.isAbort_of_ne ha habort) (hstep.ioLive_of_ne hr hlive)
      (fun a ha => hacts a (List.mem_cons_of_mem _ ha)) (hnames ▸ hnodup) (hnames ▸ hp)
    simp only [deliveredOn_append, List.flatMap_cons, List.filter_append, List.append_assoc]
      at hs hrest ⊢
    rw [hrest, ← List.append_assoc, hs, List.append_assoc]

/-- Over any run of steps from a reachable state, with distinct input port names, in which
the `OutputVirtualNode` does not run and `S` is neither aborted nor released: what is pushed
to `S` under `p`, followed by the valid buffers of `S` still waiting on `p`, is, stream by
stream and in order, the valid buffers of `S` that waited on `p` at the start followed by
those sent into `p`.  So every valid buffer of `S` sent into `p` is pushed once, in its
stream's order, unless it still waits for the next `Run`. -/
theorem execution_delivers_each_sent_buffer_once {st st' : OutputBoundary} {acts : List Action}
    {calls : List IOCall} (hexec : Execution st acts st' calls) (hst : Reachable st)
    {S : SessionRef} {p : PortName} (habort : st.world.isAbort S = false)
    (hlive : st.world.ioLive S = true)
    (hacts : ∀ a ∈ acts, a ≠ .abort S ∧ a ≠ .release S ∧ ∀ gen, a ≠ .runOutput gen)
    (hnodup : st.unmatch.getInputNames.Nodup) (hp : p ∈ st.unmatch.getInputNames) :
    (deliveredOn S p calls ++ (st'.unmatch.received S p).filter Buffer.isValid).Perm
        ((st.unmatch.received S p ++ acts.flatMap (Action.sentUnmatch S p)).filter
          Buffer.isValid) ∧
      ∀ addr, (deliveredOn S p calls ++ (st'.unmatch.received S p).filter Buffer.isValid).filter
          (·.streamAddr = addr) =
        ((st.unmatch.received S p ++ acts.flatMap (Action.sentUnmatch S p)).filter
          Buffer.isValid).filter (·.streamAddr = addr) :=
  have hstream := hexec.accounts hst habort hlive hacts hnodup hp
  ⟨perm_of_filter_streamAddr_eq hstream, hstream⟩

theorem execution_delivers_each_sent_buffer_once_send_then_run :
    let b : Buffer := ⟨⟨⟨1, 7⟩, false, false, ⟨none, 0⟩⟩, none⟩
    let st₀ := init ⟨fun _ => false, fun _ => true⟩ [] ["in"]
    let acts := [Action.sendUnmatch "in" b, .runUnmatch []]
    ∃ st' calls, (Execution st₀ acts st' calls ∧ Reachable st₀ ∧ st₀.world.isAbort 7 = false ∧
        st₀.world.ioLive 7 = true ∧
        (∀ a ∈ acts, a ≠ .abort 7 ∧ a ≠ .release 7 ∧ ∀ gen, a ≠ .runOutput gen) ∧
        st₀.unmatch.getInputNames.Nodup ∧ "in" ∈ st₀.unmatch.getInputNames) ∧
      (deliveredOn 7 "in" calls ++ (st'.unmatch.received 7 "in").filter Buffer.isValid).Perm
          ((st₀.unmatch.received 7 "in" ++ acts.flatMap (Action.sentUnmatch 7 "in")).filter
            Buffer.isValid) ∧
        ∀ addr, (deliveredOn 7 "in" calls ++
            (st'.unmatch.received 7 "in").filter Buffer.isValid).filter (·.streamAddr = addr) =
          ((st₀.unmatch.received 7 "in" ++ acts.flatMap (Action.sentUnmatch 7 "in")).filter
            Buffer.isValid).filter (·.streamAddr = addr) := by
  intro b st₀ acts
  let st₁ : OutputBoundary :=
    { st₀ with unmatch := { st₀.unmatch with inputPorts := enqueue st₀.unmatch.inputPorts "in" b } }
  obtain ⟨⟨n, calls⟩, hrun⟩ := Option.isSome_iff_exists.mp
    (show (st₁.unmatch.run [] st₁.world).isSome by rfl)
  have hexec : Execution st₀ acts { st₁ with unmatch := n } ([] ++ (calls ++ [])) :=
    .step (.sendUnmatch _ "in" b) (.step (.runUnmatch _ [] n calls hrun) (.done _))
  have hacts : ∀ a ∈ acts, a ≠ .abort 7 ∧ a ≠ .release 7 ∧ ∀ gen, a ≠ .runOutput gen := by
    simp [acts]
  have hnodup : st₀.unmatch.getInputNames.Nodup := by decide
  have hp : "in" ∈ st₀.unmatch.getInputNames := by decide
  exact ⟨_, _, ⟨hexec, .init _ _ _, rfl, rfl, hacts, hnodup, hp⟩,
    execution_delivers_each_sent_buffer_once hexec (.init _ _ _) rfl rfl hacts hnodup hp⟩

/-! ## What the caller receives -/

/-- A step from a state keeping the invariant pushes to a session only buffers of that
session, and none of them an end flag or a placeholder. -/
theorem Step.pushes_valid_own {st st' : OutputBoundary} {a : Action} {calls : List IOCall}
    (hinv : Invariant st) (h : Step st a st' calls) {s : SessionRef} {out : OutputBufferList}
    (hcall : IOCall.pushGraphOutputBuffer s out ∈ calls) {p : PortName} {bs : List Buffer}
    (hbs : out.lookup p = some bs) {b : Buffer} (hb : b ∈ bs) :
    b.session = s ∧ b.isValid = true := by
  cases h with
  | sendOutput | sendUnmatch | abort | release | runOutputFails => simp at hcall
  | runOutput gen ports calls hrun =>
    exact ⟨(OutputVirtualNode.session_of_mem_run hrun hcall).2 p bs hbs b hb,
      OutputVirtualNode.isValid_of_mem_run hrun hcall hbs hb⟩
  | runUnmatch mem n calls hrun =>
    exact ⟨(OutputUnmatchVirtualNode.run_ownSessions hrun hinv.own).2 s out hcall p bs hbs b hb,
      OutputUnmatchVirtualNode.isValid_of_mem_run hrun hcall hbs hb⟩

/-- Over any run of steps from a reachable state, whatever the sessions, the aborts, the
dropped `SessionIO`s and the match manager do, every buffer that either output node pushes to
a session's `SessionIO` belongs to that session and is neither an end flag nor a placeholder. -/
theorem execution_pushes_only_valid_own_buffers {st st' : OutputBoundary} {acts : List Action}
    {calls : List IOCall} (hexec : Execution st acts st' calls) (hst : Reachable st) :
    ∀ s out, IOCall.pushGraphOutputBuffer s out ∈ calls →
      ∀ p bs, out.lookup p = some bs → ∀ b ∈ bs, b.session = s ∧ b.isValid = true := by
  induction hexec with
  | done => simp
  | step hstep _ ih =>
    intro s out hcall p bs hbs b hb
    rcases List.mem_append.mp hcall with hcall | hcall
    · exact hstep.pushes_valid_own hst.invariant hcall hbs hb
    · exact ih (hst.step hstep) s out hcall p bs hbs b hb

theorem execution_pushes_only_valid_own_buffers_both_nodes :
    let b : Buffer := ⟨⟨⟨1, 7⟩, false, false, ⟨none, 0⟩⟩, none⟩
    let st₀ := init ⟨fun _ => false, fun _ => true⟩ ["out"] ["in"]
    let gen : GenInputMatchStreamData := fun ports => some ([], ports)
    ∃ st' calls, (Execution st₀ [.sendUnmatch "in" b, .runUnmatch [], .runOutput gen] st' calls ∧
        Reachable st₀) ∧
      ∀ s out, IOCall.pushGraphOutputBuffer s out ∈ calls →
        ∀ p bs, out.lookup p = some bs → ∀ b ∈ bs, b.session = s ∧ b.isValid = true := by
  intro b st₀ gen
  let st₁ : OutputBoundary :=
    { st₀ with unmatch := { st₀.unmatch with inputPorts := enqueue st₀.unmatch.inputPorts "in" b } }
  obtain ⟨⟨n, calls⟩, hrun⟩ := Option.isSome_iff_exists.mp
    (show (st₁.unmatch.run [] st₁.world).isSome by rfl)
  have hout : OutputVirtualNode.run gen st₁.world st₁.outputPorts =
      some (OutputVirtualNode.eraseInvalidData st₁.world st₁.outputPorts, []) := rfl
  have hexec : Execution st₀ [.sendUnmatch "in" b, .runUnmatch [], .runOutput gen] _ _ :=
    .step (.sendUnmatch _ "in" b) (.step (.runUnmatch _ [] n calls hrun)
      (.step (.runOutput _ gen _ _ hout) (.done _)))
  exact ⟨_, _, ⟨hexec, .init _ _ _⟩,
    execution_pushes_only_valid_own_buffers hexec (.init _ _ _)⟩

/-! ## Abort -/

/-- `Session::Abort()` is never undone. -/
theorem Step.isAbort {st st' : OutputBoundary} {a : Action} {calls : List IOCall}
    (h : Step st a st' calls) {s : SessionRef} (hs : st.world.isAbort s = true) :
    st'.world.isAbort s = true := by
  cases h with
  | abort t => simp [World.abort_isAbort, hs]
  | _ => exact hs

/-- A step from a state keeping the invariant pushes nothing to an aborted session, and no
buffer of it to any session: the `OutputVirtualNode` skips the session's items, and the
unmatch node drops its buffers and finds its cache without buckets. -/
theorem Step.no_push_of_abort {st st' : OutputBoundary} {a : Action} {calls : List IOCall}
    (hinv : Invariant st) (h : Step st a st' calls) {S : SessionRef}
    (hS : st.world.isAbort S = true) :
    pushesTo S calls = [] ∧ ∀ s out, IOCall.pushGraphOutputBuffer s out ∈ calls →
      ∀ p bs, out.lookup p = some bs → ∀ b ∈ bs, b.session ≠ S := by
  cases h with
  | sendOutput | sendUnmatch | abort | release | runOutputFails => exact ⟨rfl, by simp⟩
  | runOutput gen ports calls hrun =>
    have hpush : ∀ s out, IOCall.pushGraphOutputBuffer s out ∈ calls →
        s ≠ S ∧ ∀ p bs, out.lookup p = some bs → ∀ b ∈ bs, b.session = s := fun s out hc => by
      obtain ⟨ha, hown⟩ := OutputVirtualNode.session_of_mem_run hrun hc
      exact ⟨by rintro rfl; simp [hS] at ha, hown⟩
    refine ⟨pushesTo_eq_nil fun s out hc => (hpush s out hc).1, fun s out hc p bs hbs b hb => ?_⟩
    rw [(hpush s out hc).2 p bs hbs b hb]
    exact (hpush s out hc).1
  | runUnmatch mem n calls hrun =>
    have hnil := (OutputUnmatchVirtualNode.run_aborted_session hrun hS
      fun hl c hc => hinv.drained S c hc hl).1
    refine ⟨hnil, fun s out hc p bs hbs b hb => ?_⟩
    rw [(OutputUnmatchVirtualNode.run_ownSessions hrun hinv.own).2 s out hc p bs hbs b hb]
    rintro rfl
    simpa [hnil] using mem_pushesTo.mpr hc

/-- From a state keeping the invariant in which `S` is aborted, a `Run` of the unmatch node
leaves no entry for `S`, and no step brings one back. -/
theorem Step.lookup_of_abort {st st' : OutputBoundary} {a : Action} {calls : List IOCall}
    (hinv : Invariant st) (h : Step st a st' calls) {S : SessionRef}
    (hS : st.world.isAbort S = true) :
    (∀ mem, a = .runUnmatch mem → st'.unmatch.sessionCacheMap.lookup S = none) ∧
      (st.unmatch.sessionCacheMap.lookup S = none → st'.unmatch.sessionCacheMap.lookup S = none) := by
  cases h with
  | runUnmatch mem n calls hrun =>
    have := (OutputUnmatchVirtualNode.run_aborted_session hrun hS
      fun hl c hc => hinv.drained S c hc hl).2
    exact ⟨fun _ _ => this, fun _ => this⟩
  | _ => exact ⟨fun _ h => Action.noConfusion h, id⟩

/-- Along any run of steps from a reachable state in which `S` is aborted: nothing is pushed
to `S`, no buffer of `S` is pushed anywhere, and once the unmatch node has run there is no
entry for `S`. -/
theorem execution_of_abort {st st' : OutputBoundary} {acts : List Action} {calls : List IOCall}
    (hexec : Execution st acts st' calls) (hst : Reachable st) {S : SessionRef}
    (hS : st.world.isAbort S = true) :
    pushesTo S calls = [] ∧
      (∀ s out, IOCall.pushGraphOutputBuffer s out ∈ calls →
        ∀ p bs, out.lookup p = some bs → ∀ b ∈ bs, b.session ≠ S) ∧
      ((∃ mem, Action.runUnmatch mem ∈ acts) → st'.unmatch.sessionCacheMap.lookup S = none) ∧
      (st.unmatch.sessionCacheMap.lookup S = none → st'.unmatch.sessionCacheMap.lookup S = none) := by
  induction hexec with
  | done => exact ⟨rfl, by simp, by simp, id⟩
  | step hstep _ ih =>
    obtain ⟨hpush, hbuf⟩ := hstep.no_push_of_abort hst.invariant hS
    obtain ⟨hrun, hkeep⟩ := hstep.lookup_of_abort hst.invariant hS
    obtain ⟨ihpush, ihbuf, ihrun, ihkeep⟩ := ih (hst.step hstep) (hstep.isAbort hS)
    refine ⟨by rw [pushesTo_append, hpush, ihpush]; rfl, fun s out hc => ?_,
      fun ⟨mem, hmem⟩ => ?_, ihkeep ∘ hkeep⟩
    · rcases List.mem_append.mp hc with hc | hc
      · exact hbuf s out hc
      · exact ihbuf s out hc
    · rcases List.mem_cons.mp hmem with rfl | hmem
      · exact ihkeep (hrun mem rfl)
      · exact ihrun ⟨mem, hmem⟩

/-- Once `Session::Abort()` is called on `S` in a reachable state, whatever arrives and
whichever node runs afterwards: no `Run` pushes to `S` or pushes any buffer of `S`, and the
entry of `S` in `session_cache_map_` is gone at the end of the first `Run` of the
`OutputUnmatchVirtualNode` and never comes back. -/
theorem abort_stops_delivery {st st₁ : OutputBoundary} (hst : Reachable st) {S : SessionRef}
    (habort : Step st (.abort S) st₁ []) {acts : List Action} {st' : OutputBoundary}
    {calls : List IOCall} (hexec : Execution st₁ acts st' calls) :
    pushesTo S calls = [] ∧
      (∀ s out, IOCall.pushGraphOutputBuffer s out ∈ calls →
        ∀ p bs, out.lookup p = some bs → ∀ b ∈ bs, b.session ≠ S) ∧
      ((∃ mem, Action.runUnmatch mem ∈ acts) → st'.unmatch.sessionCacheMap.lookup S = none) := by
  have hS : st₁.world.isAbort S = true := by
    cases habort
    simp [World.abort_isAbort]
  obtain ⟨hpush, hbuf, hrun, -⟩ := execution_of_abort hexec (hst.step habort) hS
  exact ⟨hpush, hbuf, hrun⟩

theorem abort_stops_delivery_then_run :
    let b : Buffer := ⟨⟨⟨1, 7⟩, false, false, ⟨none, 0⟩⟩, none⟩
    let st := init ⟨fun _ => false, fun _ => true⟩ [] ["in"]
    let st₁ : OutputBoundary := { st with world := st.world.abort 7 }
    let acts := [Action.sendUnmatch "in" b, .runUnmatch []]
    Reachable st ∧ Step st (.abort 7) st₁ [] ∧
      ∃ st' calls, Execution st₁ acts st' calls ∧
        pushesTo 7 calls = [] ∧
        (∀ s out, IOCall.pushGraphOutputBuffer s out ∈ calls →
          ∀ p bs, out.lookup p = some bs → ∀ b ∈ bs, b.session ≠ 7) ∧
        ((∃ mem, Action.runUnmatch mem ∈ acts) → st'.unmatch.sessionCacheMap.lookup 7 = none) := by
  intro b st st₁ acts
  have hst : Reachable st := .init _ _ _
  have habort : Step st (.abort 7) st₁ [] := .abort st 7
  have hexec : Execution st₁ acts _ _ :=
    .step (.sendUnmatch _ "in" b) (.step (.runUnmatch _ [] _ _ rfl) (.done _))
  exact ⟨hst, habort, _, _, hexec, abort_stops_delivery hst habort hexec⟩

end OutputBoundary

end ModelBox
