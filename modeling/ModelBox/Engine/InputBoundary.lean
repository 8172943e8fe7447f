import ModelBox.Node.InputVirtualNode

/-!
# The input boundary of a running graph

The `InputVirtualNode` between the caller and the graph, as a state machine.  Its steps are
the caller's `Send` of a buffer into an external port that has room left, and a `Run` of the
node, which records what it sends on each output port.

Over every reachable state (`Invariant`) the external ports are named after the output ports,
those names are distinct, and no external queue holds more than its capacity.  From it: over
any interleaving of sends and runs, what is forwarded on an output port followed by what still
waits on the external port of that name is what waited there at the start followed by what
the caller sent into it, in order.
-/

namespace ModelBox

namespace InputVirtualNode

/-- The buffers waiting on the external ports named `p`, in order. -/
def waiting (n : InputVirtualNode) (p : PortName) : List Buffer :=
  (n.externPorts.filter (·.name = p)).flatMap (·.queue)

/-- Everything sent on the output port `p`, in order. -/
def sentOn (p : PortName) (sends : List (PortName × List Buffer)) : List Buffer :=
  (sends.filter (·.1 = p)).flatMap (·.2)

/-- The caller's `Send` into the external port named `p`: the buffer joins the back of its
queue. -/
def pushExtern (n : InputVirtualNode) (p : PortName) (b : Buffer) : InputVirtualNode :=
  { n with externPorts := n.externPorts.map fun port =>
      if port.name = p then { port with queue := port.queue ++ [b] } else port }

/-- What can happen at the input boundary. -/
inductive Action
  | send (p : PortName) (b : Buffer)
  | run

/-- The buffers an action sends into the external port `p`. -/
def Action.sent (p : PortName) : Action → List Buffer
  | send q b => if q = p then [b] else []
  | run => []

/-- One step of the input boundary and what it sends on the output ports. -/
inductive Step : InputVirtualNode → Action → InputVirtualNode → List (PortName × List Buffer) →
    Prop
  /-- The caller sends into an external port with room left. -/
  | send (n : InputVirtualNode) (port : ExternPort) (b : Buffer) (is_port : port ∈ n.externPorts)
      (has_room : port.queue.length < port.capacity) :
      Step n (.send port.name b) (n.pushExtern port.name b) []
  /-- The node runs. -/
  | run (n : InputVirtualNode) : Step n .run (run n).1 (run n).2

/-- The states the input boundary can reach after `Init` over the distinct names of a
`std::set`. -/
inductive Reachable : InputVirtualNode → Prop
  | init {names : List PortName} (hnodup : names.Nodup) (config : String → Option Nat)
      {n : InputVirtualNode} (h : init .success names config = some n) : Reachable n
  | step {n n' : InputVirtualNode} {a : Action} {sends : List (PortName × List Buffer)} :
      Reachable n → Step n a n' sends → Reachable n'

/-- A run of steps and what they send, in order. -/
inductive Execution : InputVirtualNode → List Action → InputVirtualNode →
    List (PortName × List Buffer) → Prop
  | done (n : InputVirtualNode) : Execution n [] n []
  | step {n n₁ n' : InputVirtualNode} {a : Action} {acts : List Action}
      {sends₁ sends₂ : List (PortName × List Buffer)} :
      Step n a n₁ sends₁ → Execution n₁ acts n' sends₂ →
      Execution n (a :: acts) n' (sends₁ ++ sends₂)

/-! ## The invariant -/

/-- What holds in every reachable state. -/
structure Invariant (n : InputVirtualNode) : Prop where
  names : n.externPorts.map (·.name) = n.outputPortNames
  nodup : n.outputPortNames.Nodup
  bounded : ∀ port ∈ n.externPorts, port.queue.length ≤ port.capacity

theorem map_name_pushExtern (n : InputVirtualNode) (p : PortName) (b : Buffer) :
    (n.pushExtern p b).externPorts.map (·.name) = n.externPorts.map (·.name) := by
  simp only [pushExtern, List.map_map]
  exact List.map_congr_left fun port _ => by by_cases h : port.name = p <;> simp [h]

theorem invariant_of_init {names : List PortName} (hnodup : names.Nodup)
    {config : String → Option Nat} {n : InputVirtualNode}
    (h : init .success names config = some n) : Invariant n := by
  simp only [init, ne_eq, not_true_eq_false, if_false, Option.some.injEq] at h
  subst h
  exact ⟨by simp [Function.comp_def], hnodup, by simp⟩

theorem Step.invariant {n n' : InputVirtualNode} {a : Action}
    {sends : List (PortName × List Buffer)} (h : Step n a n' sends) (hinv : Invariant n) :
    Invariant n' := by
  cases h with
  | send port b hport hroom =>
    refine ⟨(map_name_pushExtern n _ b).trans hinv.names, hinv.nodup, fun q hq => ?_⟩
    obtain ⟨r, hr, rfl⟩ := List.mem_map.mp hq
    by_cases hname : r.name = port.name
    · obtain rfl := List.inj_on_of_nodup_map (hinv.names ▸ hinv.nodup) hr hport hname
      simpa using hroom
    · simpa [hname] using hinv.bounded r hr
  | run =>
    exact ⟨by simpa [InputVirtualNode.run, Function.comp_def] using hinv.names, hinv.nodup,
      by simp [InputVirtualNode.run]⟩

theorem Reachable.invariant {n : InputVirtualNode} (h : Reachable n) : Invariant n := by
  induction h with
  | init hnodup config h => exact invariant_of_init hnodup h
  | step _ hstep ih => exact hstep.invariant ih

theorem Execution.reachable {n n' : InputVirtualNode} {acts : List Action}
    {sends : List (PortName × List Buffer)} (hexec : Execution n acts n' sends) (hn : Reachable n) :
    Reachable n' := by
  induction hexec with
  | done => exact hn
  | step hstep _ ih => exact ih (hn.step hstep)

/-! ## What waits and what is forwarded -/

theorem waiting_eq_nil {n : InputVirtualNode} {p : PortName}
    (h : p ∉ n.externPorts.map (·.name)) : waiting n p = [] := by
  simp only [waiting, List.flatMap_eq_nil_iff, List.mem_filter, decide_eq_true_eq]
  rintro port ⟨hport, rfl⟩
  exact absurd (List.mem_map_of_mem _ hport) h

/-- The first loop of `Run` maps the name of an external port to everything waiting on the
ports of that name. -/
theorem lookup_recvAll_waiting {n : InputVirtualNode} {p : PortName}
    (h : p ∈ n.externPorts.map (·.name)) : (recvAll n.externPorts).lookup p = some (waiting n p) := by
  obtain ⟨port, hport, rfl⟩ := List.mem_map.mp h
  rw [recvAll, lookup_foldl_recv, if_pos (List.any_eq_true.mpr ⟨port, hport, by simp⟩)]
  simp [waiting]

/-- A `Run` forwards on each output port what waited on the external port of its name, and
leaves nothing waiting. -/
theorem sentOn_run {n : InputVirtualNode} (hinv : Invariant n) (p : PortName) :
    sentOn p (run n).2 = waiting n p ∧ waiting (run n).1 p = [] := by
  have hc : ∀ name ∈ n.outputPortNames,
      (recvAll n.externPorts).lookup name = some (waiting n name) :=
    fun name hname => lookup_recvAll_waiting (hinv.names ▸ hname)
  refine ⟨?_, ?_⟩
  · rw [sentOn, run, flatMap_filter_filterMap_sendPort hinv.nodup hc p]
    split_ifs with hp
    · rfl
    · exact (waiting_eq_nil (hinv.names ▸ hp)).symm
  · simp only [waiting, run, List.flatMap_eq_nil_iff, List.mem_filter, List.mem_map]
    rintro _ ⟨⟨port, -, rfl⟩, -⟩
    rfl

/-- With distinct port names, a `Send` into the port `port` adds the buffer behind what waits
on it and changes nothing on the others. -/
theorem waiting_pushExtern {n : InputVirtualNode} (hnodup : (n.externPorts.map (·.name)).Nodup)
    {port : ExternPort} (hport : port ∈ n.externPorts) (b : Buffer) (p : PortName) :
    waiting (n.pushExtern port.name b) p = waiting n p ++ if port.name = p then [b] else [] := by
  simp only [waiting, pushExtern, filter_map_update ExternPort.name
    (fun port => { port with queue := port.queue ++ [b] }) (fun _ => rfl)]
  by_cases hp : port.name = p
  · subst hp
    rw [if_pos rfl, filter_key_eq_singleton ExternPort.name hnodup hport]
    simp
  · simp [hp, Ne.symm hp]

/-- One step, on the port `p`: what it forwards, followed by what then waits, is what waited
before followed by what it sends in. -/
theorem Step.accounts {n n' : InputVirtualNode} {a : Action}
    {sends : List (PortName × List Buffer)} (hinv : Invariant n) (h : Step n a n' sends)
    (p : PortName) : sentOn p sends ++ waiting n' p = waiting n p ++ a.sent p := by
  cases h with
  | send port b hport _ =>
    rw [waiting_pushExtern (hinv.names ▸ hinv.nodup) hport]
    simp [sentOn, Action.sent]
  | run =>
    obtain ⟨hsent, hleft⟩ := sentOn_run hinv p
    simp [hsent, hleft, Action.sent]

/-- Over any interleaving of the caller's sends and the node's runs from a reachable state,
what is forwarded on an output port, followed by what still waits on the external port of
that name, is what waited there at the start followed by what the caller sent into it: every
buffer sent is forwarded once, in the order sent, unless it still waits for the next `Run`.
No external queue ever holds more than its capacity. -/
theorem execution_forwards_each_sent_buffer_once {n n' : InputVirtualNode} {acts : List Action}
    {sends : List (PortName × List Buffer)} (hexec : Execution n acts n' sends)
    (hn : Reachable n) (p : PortName) :
    sentOn p sends ++ waiting n' p = waiting n p ++ acts.flatMap (Action.sent p) ∧
      ∀ port ∈ n'.externPorts, port.queue.length ≤ port.capacity := by
  refine ⟨?_, (hexec.reachable hn).invariant.bounded⟩
  induction hexec with
  | done => simp [sentOn]
  | step hstep _ ih =>
    have hs := hstep.accounts hn.invariant p
    simp only [sentOn, List.filter_append, List.flatMap_append, List.flatMap_cons,
      List.append_assoc] at hs ih ⊢
    rw [ih (hn.step hstep), ← List.append_assoc, hs, List.append_assoc]

theorem execution_forwards_each_sent_buffer_once_send_then_run :
    let b : Buffer := ⟨⟨⟨1, 7⟩, false, false, ⟨none, 0⟩⟩, none⟩
    let acts := [Action.send "a" b, .run]
    ∃ n n' sends, (init .success ["a"] (fun _ => none) = some n ∧ Execution n acts n' sends ∧
        Reachable n) ∧
      sentOn "a" sends ++ waiting n' "a" = waiting n "a" ++ acts.flatMap (Action.sent "a") ∧
        ∀ port ∈ n'.externPorts, port.queue.length ≤ port.capacity := by
  intro b acts
  have hinit : init .success ["a"] (fun _ => none) = some ⟨[⟨"a", queueSize, []⟩], ["a"]⟩ := rfl
  have hn : Reachable ⟨[⟨"a", queueSize, []⟩], ["a"]⟩ := .init (by decide) _ hinit
  have hexec : Execution ⟨[⟨"a", queueSize, []⟩], ["a"]⟩ acts _ _ :=
    .step (.send _ ⟨"a", queueSize, []⟩ b (List.mem_singleton_self _) (by decide))
      (.step (.run _) (.done _))
  exact ⟨_, _, _, ⟨hinit, hexec, hn⟩, execution_forwards_each_sent_buffer_once hexec hn "a"⟩

end InputVirtualNode

end ModelBox
