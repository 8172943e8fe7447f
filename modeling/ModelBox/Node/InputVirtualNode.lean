import ModelBox.Lineage.Buffer

/-!
# `InputVirtualNode`

The boundary node for the caller's input.  `Init` gives it one external in-port per output
port name, with the capacity `queue_size_external` of the configuration (by default the
node's `queue_size_`, which the constructor sets to `-1`); the caller pushes buffers into
those ports.  `Run` receives everything waiting on each external port into a cache keyed by
port name and sends each non-empty list on the output port of that name.

`NodeBase::Init` is not part of the sources: as the spec describes it, it creates one port per
name, and `init` takes only its status.  `InPort::Recv(buffers, -1)` is taken as receiving the
whole queue, appended to `buffers`.
-/

namespace ModelBox

/-- An external in-port: its name, capacity and FIFO. -/
structure ExternPort where
  name : PortName
  capacity : Nat
  queue : List Buffer
  deriving DecidableEq

/-- An `InputVirtualNode` after `Init`: `extern_ports_` and the names of `output_ports_`. -/
structure InputVirtualNode where
  externPorts : List ExternPort
  outputPortNames : List PortName
  deriving DecidableEq

namespace InputVirtualNode

/-- `queue_size_ = -1`, read as the unsigned 64-bit `GetUint64` default: `2 ^ 64 - 1`. -/
def queueSize : Nat := 18446744073709551615

/-- `InputVirtualNode::Init(input_port_names, output_port_names, config)`, given the status of
`NodeBase::Init`, which creates the output ports; `none` when that status is an error, which
`Init` returns.  `config` is `Configuration::GetUint64` without its default. -/
def init (nodeBaseStatus : Status) (outputPortNames : List PortName)
    (config : String → Option Nat) : Option InputVirtualNode :=
  if nodeBaseStatus ≠ .success then none
  else
    let extQueueSize := (config "queue_size_external").getD queueSize
    some ⟨outputPortNames.map fun name => ⟨name, extQueueSize, []⟩, outputPortNames⟩

/-- The first loop of `Run`: `port->Recv(ports_data_cache[port->GetName()], -1)` for every
external in-port. -/
def recvAll (ports : List ExternPort) : AList fun _ : PortName => List Buffer :=
  ports.foldl (fun cache port =>
    cache.insert port.name ((cache.lookup port.name).getD [] ++ port.queue)) ∅

/-- The body of the second loop of `Run` for the output port `name`:
`port->Send(data_cache)` unless `data_cache` is empty. -/
def sendPort (portsDataCache : AList fun _ : PortName => List Buffer) (name : PortName) :
    Option (PortName × List Buffer) :=
  let dataCache := (portsDataCache.lookup name).getD []
  if dataCache.isEmpty then none else some (name, dataCache)

/-- `InputVirtualNode::Run`: the node with its external queues received, and every `Send` it
makes, in order, as the output port's name and the list sent. -/
def run (n : InputVirtualNode) : InputVirtualNode × List (PortName × List Buffer) :=
  (⟨n.externPorts.map fun port => { port with queue := [] }, n.outputPortNames⟩,
    n.outputPortNames.filterMap (sendPort (recvAll n.externPorts)))

/-- The external caller has filled the queues: `queues p` waits on the port named `p`. -/
def withQueues (n : InputVirtualNode) (queues : PortName → List Buffer) : InputVirtualNode :=
  { n with externPorts := n.externPorts.map fun port => { port with queue := queues port.name } }

/-- The cache after the first loop maps a name to everything waiting on the ports of that
name, in port order. -/
theorem lookup_foldl_recv (ports : List ExternPort) (cache : AList fun _ : PortName => List Buffer)
    (p : PortName) :
    (ports.foldl (fun cache port =>
        cache.insert port.name ((cache.lookup port.name).getD [] ++ port.queue)) cache).lookup p =
      if ports.any (·.name = p) then
        some ((cache.lookup p).getD [] ++ (ports.filter (·.name = p)).flatMap (·.queue))
      else cache.lookup p := by
  induction ports generalizing cache with
  | nil => simp
  | cons port ports ih =>
    rw [List.foldl_cons, ih]
    by_cases hp : port.name = p
    · subst hp
      simp [AList.lookup_insert, List.filter_cons]
      exact fun h x hx hx' => absurd hx' (h x hx)
    · simp [AList.lookup_insert_ne (Ne.symm hp), List.filter_cons, hp]

/-- With distinct port names, the first loop maps each port's name to its queue. -/
theorem lookup_recvAll {ports : List ExternPort} (hnodup : (ports.map (·.name)).Nodup)
    {port : ExternPort} (hport : port ∈ ports) :
    (recvAll ports).lookup port.name = some port.queue := by
  rw [recvAll, lookup_foldl_recv, filter_key_eq_singleton ExternPort.name hnodup hport,
    if_pos (List.any_eq_true.mpr ⟨port, hport, by simp⟩)]
  simp

theorem sendPort_of_lookup {cache : AList fun _ : PortName => List Buffer} {name : PortName}
    {q : List Buffer} (h : cache.lookup name = some q) :
    sendPort cache name = if q.isEmpty then none else some (name, q) := by
  simp [sendPort, h]

/-- Everything the second loop sends, port after port, is everything the cache holds for the
output ports, port after port. -/
theorem flatMap_filterMap_sendPort {cache : AList fun _ : PortName => List Buffer}
    {queues : PortName → List Buffer} {names : List PortName}
    (hc : ∀ name ∈ names, cache.lookup name = some (queues name)) :
    (names.filterMap (sendPort cache)).flatMap (·.2) = names.flatMap queues := by
  induction names with
  | nil => rfl
  | cons a as ih =>
    rw [List.forall_mem_cons] at hc
    rw [List.filterMap_cons, sendPort_of_lookup hc.1]
    by_cases hq : (queues a).isEmpty = true
    · simp [hq, ih hc.2, List.isEmpty_iff.mp hq]
    · simp [hq, ih hc.2]

/-- With distinct output port names, what the second loop sends on `p` is what the cache
holds for `p`, and nothing when `p` is not an output port. -/
theorem flatMap_filter_filterMap_sendPort {cache : AList fun _ : PortName => List Buffer}
    {queues : PortName → List Buffer} {names : List PortName} (hnodup : names.Nodup)
    (hc : ∀ name ∈ names, cache.lookup name = some (queues name)) (p : PortName) :
    ((names.filterMap (sendPort cache)).filter (·.1 = p)).flatMap (·.2) =
      if p ∈ names then queues p else [] := by
  induction names with
  | nil => simp
  | cons a as ih =>
    rw [List.forall_mem_cons] at hc
    rw [List.nodup_cons] at hnodup
    have hrest := ih hnodup.2 hc.2
    rw [List.filterMap_cons, sendPort_of_lookup hc.1]
    by_cases ha : a = p
    · subst ha
      rw [if_neg hnodup.1] at hrest
      by_cases hq : (queues a).isEmpty = true
      · simp [hq, hrest, List.isEmpty_iff.mp hq]
      · simp [hq, hrest]
    · by_cases hq : (queues a).isEmpty = true
      · simp [hq, hrest, ha, Ne.symm ha]
      · simp [hq, hrest, ha, Ne.symm ha]

/-- After `Init`, with the external queues filled, the cache of `Run` holds for each output
port the queue of the external port of that name. -/
theorem lookup_recvAll_withQueues {names : List PortName} (hnodup : names.Nodup)
    {config : String → Option Nat} {n : InputVirtualNode}
    (hinit : init .success names config = some n) (queues : PortName → List Buffer) :
    n.outputPortNames = names ∧
      ∀ name ∈ names, (recvAll (n.withQueues queues).externPorts).lookup name = some (queues name) := by
  simp only [init, ne_eq, not_true_eq_false, if_false, Option.some.injEq] at hinit
  subst hinit
  refine ⟨rfl, fun name hname => ?_⟩
  have hnodup' : ((withQueues ⟨names.map fun name => ⟨name, (config "queue_size_external").getD
      queueSize, []⟩, names⟩ queues).externPorts.map (·.name)).Nodup := by
    simpa [withQueues, Function.comp_def] using hnodup
  exact lookup_recvAll hnodup' (List.mem_map.mpr ⟨_, List.mem_map.mpr ⟨name, hname, rfl⟩, rfl⟩)

/-- After `Init` over the distinct output port names of a `std::set`, whatever the caller has
put in the external queues, `Run` sends on each output port exactly the buffers received from
the external port of the same name, in the order received, and nothing under any other name;
all it sends is all it receives, port after port, so no buffer is dropped or duplicated; and
the external queues are left empty. -/
theorem run_forwards_each_port (names : List PortName) (hnodup : names.Nodup)
    (config : String → Option Nat) (n : InputVirtualNode)
    (hinit : init .success names config = some n) (queues : PortName → List Buffer) :
    (∀ p, ((run (n.withQueues queues)).2.filter (·.1 = p)).flatMap (·.2) =
        if p ∈ names then queues p else []) ∧
      (run (n.withQueues queues)).2.flatMap (·.2) =
        (n.withQueues queues).externPorts.flatMap (·.queue) ∧
      ∀ port ∈ (run (n.withQueues queues)).1.externPorts, port.queue = [] := by
  obtain ⟨hnames, hcache⟩ := lookup_recvAll_withQueues hnodup hinit queues
  have hnames' : (n.withQueues queues).outputPortNames = names := hnames
  refine ⟨fun p => ?_, ?_, fun port hport => ?_⟩
  · rw [run, hnames']
    exact flatMap_filter_filterMap_sendPort hnodup hcache p
  · rw [run, hnames', flatMap_filterMap_sendPort hcache]
    simp only [init, ne_eq, not_true_eq_false, if_false, Option.some.injEq] at hinit
    subst hinit
    simp [withQueues, List.flatMap_map, Function.comp_def]
  · obtain ⟨q, -, rfl⟩ := List.mem_map.mp hport
    rfl

theorem run_forwards_each_port_two_ports :
    let b : Buffer := ⟨⟨⟨1, 7⟩, false, false, ⟨none, 0⟩⟩, none⟩
    let queues : PortName → List Buffer := fun p => if p = "a" then [b, b] else []
    ∃ n, (["a", "b"].Nodup ∧ init .success ["a", "b"] (fun _ => none) = some n) ∧
      (∀ p, ((run (n.withQueues queues)).2.filter (·.1 = p)).flatMap (·.2) =
          if p ∈ ["a", "b"] then queues p else []) ∧
        (run (n.withQueues queues)).2.flatMap (·.2) =
          (n.withQueues queues).externPorts.flatMap (·.queue) ∧
        ∀ port ∈ (run (n.withQueues queues)).1.externPorts, port.queue = [] := by
  intro b queues
  have hnodup : ["a", "b"].Nodup := by decide
  exact ⟨_, ⟨hnodup, rfl⟩, run_forwards_each_port ["a", "b"] hnodup (fun _ => none) _ rfl queues⟩

end InputVirtualNode

end ModelBox
