import ModelBox.Session.World
import ModelBox.Cache.SessionUnmatchCache

/-!
# `OutputVirtualNode`

The boundary node that hands matched outputs to the caller.  `Run` first drops, from the
front of every input queue, the buffers whose session has no `SessionIO` any more
(`EraseInvalidData`), lets its `InputMatchStreamManager` group the queues into
`MatchStreamData` items, and pushes each item to its session: the valid buffers of every
port, then the last error among them.

The match manager is not part of the sources.  `run` takes it as the function
`GenInputMatchStreamData`, and an item carries the manager's contract from the spec: all its
buffers belong to its session.  The ports of an item are an `AList`, iterated in the order
the container keeps them.
-/

namespace ModelBox

/-- An input port: its name and the FIFO of buffers waiting in it. -/
structure InPort where
  name : PortName
  queue : List Buffer
  deriving DecidableEq

/-- Modelled from the spec: `MatchStreamData` (its header is not in the sources) as §3 and
§4.4 describe it: one session and the buffers of each port, all of them of that session. -/
structure MatchStreamData where
  session : SessionRef
  bufferList : AList fun _ : PortName => List Buffer
  ownSession : ∀ e ∈ bufferList.entries, ∀ b ∈ e.2, b.session = session

/-- Modelled from the spec: `GetDataCount()`, the number of buffers of the item (§4.2: an
item with none is skipped). -/
def MatchStreamData.getDataCount (m : MatchStreamData) : Nat :=
  (m.bufferList.entries.map fun e => e.2.length).foldr (· + ·) 0

/-- `GenInputMatchStreamData(type, match_stream_data_list)`: from the input ports, the items
the match manager grouped and the ports it leaves them in, or `none` when it fails. -/
abbrev GenInputMatchStreamData := List InPort → Option (List MatchStreamData × List InPort)

namespace OutputVirtualNode

/-! ## `EraseInvalidData` -/

/-- The loop of `EraseInvalidData` on one queue: pop the front while its session's
`SessionIO` is null. -/
def eraseInvalidQueue (w : World) : List Buffer → List Buffer
  | [] => []
  | b :: rest => if w.ioLive b.session then b :: rest else eraseInvalidQueue w rest

/-- `EraseInvalidData()`. -/
def eraseInvalidData (w : World) (ports : List InPort) : List InPort :=
  ports.map fun port => { port with queue := eraseInvalidQueue w port.queue }

theorem eraseInvalidQueue_eq_dropWhile (w : World) (q : List Buffer) :
    eraseInvalidQueue w q = q.dropWhile fun b => !w.ioLive b.session := by
  induction q with
  | nil => rfl
  | cons b rest ih => by_cases h : w.ioLive b.session <;> simp [eraseInvalidQueue, h, ih]

/-- `EraseInvalidData` drops from each queue the longest prefix of buffers whose session has
no `SessionIO`, port by port: what it drops all had a null `SessionIO`, and what it keeps is
the rest of the queue in order, starting at a buffer whose session still has one. -/
theorem eraseInvalidData_drops_released_prefix (w : World) (ports : List InPort) :
    eraseInvalidData w ports =
        ports.map (fun port => { port with queue := port.queue.dropWhile fun b => !w.ioLive b.session }) ∧
      ∀ port ∈ ports,
        port.queue = port.queue.takeWhile (fun b => !w.ioLive b.session) ++
            port.queue.dropWhile (fun b => !w.ioLive b.session) ∧
          (∀ b ∈ port.queue.takeWhile (fun b => !w.ioLive b.session), w.ioLive b.session = false) ∧
          ∀ b ∈ (port.queue.dropWhile fun b => !w.ioLive b.session).head?, w.ioLive b.session := by
  refine ⟨by simp [eraseInvalidData, eraseInvalidQueue_eq_dropWhile], fun port _ =>
    ⟨(List.takeWhile_append_dropWhile _ _).symm, fun b hb => ?_, fun b hb => ?_⟩⟩
  · simpa using List.mem_takeWhile_imp hb
  · have h := List.head?_dropWhile_not (fun b => !w.ioLive b.session) port.queue
    rw [Option.mem_def.mp hb] at h
    simpa using h

/-! ## Delivering one item -/

/-- The body of the loop over one port's `data_list`: skip end flags and placeholders, keep
the error of every other buffer, and add it to `valid_output`. -/
def collectBuffer (acc : List Buffer × Option FlowUnitError) (data : Buffer) :
    List Buffer × Option FlowUnitError :=
  if data.indexInfo.isEndFlag then acc
  else if data.indexInfo.isPlaceholder then acc
  else (acc.1 ++ [data], keepError acc.2 data)

/-- The body of the loop over `*stream_data_map`: `output[port_name] = valid_output`, with
`last_error` carried on to the next port. -/
def collectPort (acc : OutputBufferList × Option FlowUnitError)
    (portData : Σ _ : PortName, List Buffer) : OutputBufferList × Option FlowUnitError :=
  let r := portData.2.foldl collectBuffer ([], acc.2)
  (acc.1.insert portData.1 r.1, r.2)

/-- The `output` and `last_error` that `Run` builds for an item. -/
def collectOutput (m : MatchStreamData) : OutputBufferList × Option FlowUnitError :=
  m.bufferList.entries.foldl collectPort (∅, none)

/-- What `Run` does with one `MatchStreamData`: nothing for an empty item, an aborted session
or a null `SessionIO`; otherwise `PushGraphOutputBuffer(output)`, then
`SetLastError(last_error)`. -/
def deliverMatchStreamData (w : World) (m : MatchStreamData) : List IOCall :=
  if m.getDataCount = 0 then []
  else if w.isAbort m.session then []
  else if !w.ioLive m.session then []
  else
    let r := collectOutput m
    [.pushGraphOutputBuffer m.session r.1, .setLastError m.session r.2]

/-- `OutputVirtualNode::Run`: the ports it leaves and the calls it makes, or `none` when
`GenInputMatchStreamData` fails (`Run` then returns that error without a call). -/
def run (gen : GenInputMatchStreamData) (w : World) (ports : List InPort) :
    Option (List InPort × List IOCall) :=
  (gen (eraseInvalidData w ports)).map fun r => (r.2, r.1.flatMap (deliverMatchStreamData w))

/-- The items `Run` delivers: not empty, of a session neither aborted nor without
`SessionIO`. -/
def isDelivered (w : World) (m : MatchStreamData) : Bool :=
  m.getDataCount != 0 && !w.isAbort m.session && w.ioLive m.session

theorem collectBuffer_eq (acc : List Buffer × Option FlowUnitError) (data : Buffer) :
    collectBuffer acc data =
      if data.isValid then (acc.1 ++ [data], keepError acc.2 data) else acc := by
  unfold collectBuffer Buffer.isValid
  cases data.indexInfo.isEndFlag <;> cases data.indexInfo.isPlaceholder <;> rfl

/-- The loop over one port's `data_list` keeps its valid buffers in order, and the error of
the last of them that carries one. -/
theorem foldl_collectBuffer (l : List Buffer) (vs : List Buffer) (e : Option FlowUnitError) :
    l.foldl collectBuffer (vs, e) =
      (vs ++ l.filter Buffer.isValid, (lastErrorOf (l.filter Buffer.isValid)).or e) := by
  rw [← foldl_keepError]
  induction l generalizing vs e with
  | nil => simp
  | cons b l ih =>
    rw [List.foldl_cons, collectBuffer_eq]
    by_cases hb : b.isValid <;> simp [hb, ih, List.filter_cons]

theorem lookup_foldl_collectPort (l : List (Σ _ : PortName, List Buffer)) (hl : l.NodupKeys)
    (acc : OutputBufferList × Option FlowUnitError) (p : PortName) :
    (l.foldl collectPort acc).1.lookup p =
      ((l.dlookup p).map (·.filter Buffer.isValid)).or (acc.1.lookup p) := by
  induction l generalizing acc with
  | nil => simp
  | cons e l ih =>
    obtain ⟨q, bs⟩ := e
    rw [List.nodupKeys_cons] at hl
    rw [List.foldl_cons, ih hl.2]
    by_cases hp : p = q
    · subst hp
      simp [collectPort, foldl_collectBuffer, List.dlookup_eq_none.mpr hl.1, AList.lookup_insert]
    · simp [collectPort, AList.lookup_insert_ne hp,
        List.dlookup_cons_ne _ (⟨q, bs⟩ : Σ _ : PortName, List Buffer) hp]

theorem foldl_collectPort_snd (l : List (Σ _ : PortName, List Buffer))
    (acc : OutputBufferList × Option FlowUnitError) :
    (l.foldl collectPort acc).2 =
      (lastErrorOf ((l.flatMap (·.2)).filter Buffer.isValid)).or acc.2 := by
  induction l generalizing acc with
  | nil => simp
  | cons e l ih =>
    rw [List.foldl_cons, ih]
    simp only [collectPort, foldl_collectBuffer, List.flatMap_cons, List.filter_append,
      lastErrorOf_append, Option.or_assoc]

/-- The output of an item maps each of its ports, and nothing else, to the port's valid
buffers in order. -/
theorem lookup_collectOutput (m : MatchStreamData) (p : PortName) :
    (collectOutput m).1.lookup p = (m.bufferList.lookup p).map (·.filter Buffer.isValid) := by
  simpa using lookup_foldl_collectPort _ m.bufferList.nodupKeys (∅, none) p

/-- The error set for an item is that of its last valid buffer carrying one, over its ports
in the order they are iterated. -/
theorem collectOutput_snd (m : MatchStreamData) :
    (collectOutput m).2 = lastErrorOf ((m.bufferList.entries.flatMap (·.2)).filter Buffer.isValid) := by
  simp [collectOutput, foldl_collectPort_snd]

/-- Every buffer of an item's output is valid and of the item's session. -/
theorem mem_collectOutput {m : MatchStreamData} {p : PortName} {bs : List Buffer}
    (hbs : (collectOutput m).1.lookup p = some bs) {b : Buffer} (hb : b ∈ bs) :
    b.isValid ∧ b.session = m.session := by
  rw [lookup_collectOutput] at hbs
  obtain ⟨l, hl, rfl⟩ := Option.map_eq_some'.mp hbs
  obtain ⟨hb, hvalid⟩ := List.mem_filter.mp hb
  exact ⟨hvalid, m.ownSession ⟨p, l⟩ (List.mem_dlookup_iff m.bufferList.nodupKeys |>.mp hl) b hb⟩

theorem keys_collectOutput_perm (m : MatchStreamData) :
    (collectOutput m).1.keys.Perm m.bufferList.keys := by
  refine (List.perm_ext_iff_of_nodup (AList.keys_nodup _) (AList.keys_nodup _)).mpr fun p => ?_
  rw [← AList.mem_keys, ← AList.mem_keys, ← AList.lookup_isSome, ← AList.lookup_isSome,
    lookup_collectOutput]
  simp

theorem deliverMatchStreamData_of_isDelivered {w : World} {m : MatchStreamData}
    (h : isDelivered w m) :
    deliverMatchStreamData w m =
      [.pushGraphOutputBuffer m.session (collectOutput m).1,
        .setLastError m.session (collectOutput m).2] := by
  simp only [isDelivered, Bool.and_eq_true, bne_iff_ne, ne_eq, Bool.not_eq_true'] at h
  simp [deliverMatchStreamData, h.1.1, h.1.2, h.2]

theorem deliverMatchStreamData_of_not_isDelivered {w : World} {m : MatchStreamData}
    (h : isDelivered w m = false) : deliverMatchStreamData w m = [] := by
  unfold deliverMatchStreamData
  by_cases h0 : m.getDataCount = 0
  · simp [h0]
  · cases ha : w.isAbort m.session <;> cases hl : w.ioLive m.session <;>
      simp_all [isDelivered]

theorem filterMap_asPush_deliverMatchStreamData (w : World) (m : MatchStreamData) :
    (deliverMatchStreamData w m).filterMap IOCall.asPush =
      if isDelivered w m then [(m.session, (collectOutput m).1)] else [] := by
  cases h : isDelivered w m
  · simp [deliverMatchStreamData_of_not_isDelivered h]
  · simp [deliverMatchStreamData_of_isDelivered h, IOCall.asPush]

/-! ## `Run` -/

theorem filterMap_asPush_flatMap_deliverMatchStreamData (w : World)
    (items : List MatchStreamData) :
    (items.flatMap (deliverMatchStreamData w)).filterMap IOCall.asPush =
      (items.filter (isDelivered w)).map (fun m => (m.session, (collectOutput m).1)) := by
  induction items with
  | nil => rfl
  | cons m items ih =>
    rw [List.flatMap_cons, List.filterMap_append, filterMap_asPush_deliverMatchStreamData, ih]
    cases h : isDelivered w m <;> simp [List.filter_cons, h]

/-- `Run` pushes once for each item that is not empty and whose session is neither aborted
nor without `SessionIO`, in the order of the items, and for no other item.  Each push goes
to the item's own session and maps exactly the item's ports, each to its buffers without
end flags and placeholders, in order; so every pushed buffer is valid and of that session. -/
theorem run_pushes_delivered_items (gen : GenInputMatchStreamData) (w : World)
    (ports : List InPort) (items : List MatchStreamData) (ports' : List InPort)
    (hgen : gen (eraseInvalidData w ports) = some (items, ports')) :
    ∃ calls, run gen w ports = some (ports', calls) ∧
      calls.filterMap IOCall.asPush =
        (items.filter (isDelivered w)).map (fun m => (m.session, (collectOutput m).1)) ∧
      ∀ m ∈ items, (collectOutput m).1.keys.Perm m.bufferList.keys ∧
        (∀ p, (collectOutput m).1.lookup p =
          (m.bufferList.lookup p).map (·.filter Buffer.isValid)) ∧
        ∀ p bs, (collectOutput m).1.lookup p = some bs →
          ∀ b ∈ bs, b.isValid ∧ b.session = m.session := by
  exact ⟨items.flatMap (deliverMatchStreamData w), by simp [run, hgen],
    filterMap_asPush_flatMap_deliverMatchStreamData w items,
    fun m _ => ⟨keys_collectOutput_perm m, lookup_collectOutput m,
      fun _ _ hbs _ hb => mem_collectOutput hbs hb⟩⟩

/-- Every push of `Run` is the output built for a delivered item of its session. -/
theorem mem_run_push {gen : GenInputMatchStreamData} {w : World} {ports ports' : List InPort}
    {calls : List IOCall} (h : run gen w ports = some (ports', calls)) {s : SessionRef}
    {out : OutputBufferList} (hcall : IOCall.pushGraphOutputBuffer s out ∈ calls) :
    ∃ m : MatchStreamData, isDelivered w m = true ∧ m.session = s ∧ out = (collectOutput m).1 := by
  obtain ⟨r, -, hr⟩ := Option.map_eq_some'.mp h
  cases hr
  obtain ⟨m, -, hm⟩ := List.mem_flatMap.mp hcall
  cases hd : isDelivered w m
  · simp [deliverMatchStreamData_of_not_isDelivered hd] at hm
  · rw [deliverMatchStreamData_of_isDelivered hd] at hm
    simp only [List.mem_cons, IOCall.pushGraphOutputBuffer.injEq, reduceCtorEq,
      List.not_mem_nil, or_false] at hm
    exact ⟨m, hd, hm.1.symm, hm.2⟩

/-- A push of `Run` goes to a session that is not aborted, and carries only buffers of that
session. -/
theorem session_of_mem_run {gen : GenInputMatchStreamData} {w : World} {ports ports' : List InPort}
    {calls : List IOCall} (h : run gen w ports = some (ports', calls)) {s : SessionRef}
    {out : OutputBufferList} (hcall : IOCall.pushGraphOutputBuffer s out ∈ calls) :
    w.isAbort s = false ∧ ∀ p bs, out.lookup p = some bs → ∀ b ∈ bs, b.session = s := by
  obtain ⟨m, hd, rfl, rfl⟩ := mem_run_push h hcall
  simp only [isDelivered, Bool.and_eq_true, Bool.not_eq_true'] at hd
  exact ⟨hd.1.2, fun p bs hbs b hb => (mem_collectOutput hbs hb).2⟩

/-- `Run` pushes no end flag and no placeholder. -/
theorem isValid_of_mem_run {gen : GenInputMatchStreamData} {w : World}
    {ports ports' : List InPort} {calls : List IOCall} (h : run gen w ports = some (ports', calls))
    {s : SessionRef} {out : OutputBufferList} (hcall : IOCall.pushGraphOutputBuffer s out ∈ calls)
    {p : PortName} {bs : List Buffer} (hbs : out.lookup p = some bs) {b : Buffer} (hb : b ∈ bs) :
    b.isValid = true := by
  obtain ⟨m, -, -, rfl⟩ := mem_run_push h hcall
  exact (mem_collectOutput hbs hb).1

theorem run_pushes_delivered_items_one_item :
    let b : Buffer := ⟨⟨⟨1, 7⟩, false, false, ⟨none, 0⟩⟩, none⟩
    let m : MatchStreamData :=
      ⟨7, (∅ : AList fun _ : PortName => List Buffer).insert "out" [b], by decide⟩
    let gen : GenInputMatchStreamData := fun ps => some ([m], ps)
    let w : World := ⟨fun _ => false, fun _ => true⟩
    gen (eraseInvalidData w []) = some ([m], []) ∧
      ∃ calls, run gen w [] = some ([], calls) ∧
        calls.filterMap IOCall.asPush =
          ([m].filter (isDelivered w)).map (fun m => (m.session, (collectOutput m).1)) ∧
        ∀ m' ∈ [m], (collectOutput m').1.keys.Perm m'.bufferList.keys ∧
          (∀ p, (collectOutput m').1.lookup p =
            (m'.bufferList.lookup p).map (·.filter Buffer.isValid)) ∧
          ∀ p bs, (collectOutput m').1.lookup p = some bs →
            ∀ b ∈ bs, b.isValid ∧ b.session = m'.session := by
  intro b m gen w
  exact ⟨rfl, run_pushes_delivered_items gen w [] [m] [] rfl⟩

/-! ## The error each output path sets -/

theorem isDelivered_of_single_port {w : World} {m : MatchStreamData} {p : PortName}
    {bs : List Buffer} (hm : m.bufferList.entries = [⟨p, bs⟩]) (hbs : bs ≠ [])
    (habort : w.isAbort m.session = false) (hlive : w.ioLive m.session = true) :
    isDelivered w m := by
  simpa [isDelivered, MatchStreamData.getDataCount, hm, habort, hlive] using hbs

/-- For the buffers `bs` of one port of a session that is neither aborted nor without
`SessionIO`, `OutputVirtualNode::Run` pushes, under that port only, the buffers of `bs` that
are neither end flags nor placeholders, and sets the error of the last of them that carries
one, while calling `CacheBuffer` on each buffer of `bs` keeps the error of the last buffer
carrying one, of any kind.  The two errors agree when no end flag or placeholder of `bs`
carries an error. -/
theorem lastError_of_output_paths (w : World) (m : MatchStreamData) (p : PortName)
    (bs : List Buffer) (hm : m.bufferList.entries = [⟨p, bs⟩]) (hbs : bs ≠ [])
    (habort : w.isAbort m.session = false) (hlive : w.ioLive m.session = true)
    (mem : IndexMemory) (portNames : List PortName) (c : SessionUnmatchCache)
    (hc : bs.foldlM (fun c b => c.cacheBuffer mem p b) (SessionUnmatchCache.create portNames) =
      some c) :
    deliverMatchStreamData w m =
        [.pushGraphOutputBuffer m.session (collectOutput m).1,
          .setLastError m.session (lastErrorOf (bs.filter Buffer.isValid))] ∧
      (∀ q, (collectOutput m).1.lookup q = if q = p then some (bs.filter Buffer.isValid) else none) ∧
      c.lastError = lastErrorOf bs ∧
      ((∀ b ∈ bs, b.isValid = false → b.error = none) →
        lastErrorOf (bs.filter Buffer.isValid) = lastErrorOf bs) := by
  refine ⟨?_, fun q => ?_, ?_, lastErrorOf_filter bs _⟩
  · rw [deliverMatchStreamData_of_isDelivered (isDelivered_of_single_port hm hbs habort hlive),
      collectOutput_snd, hm]
    simp
  · rw [lookup_collectOutput, AList.lookup, hm]
    rcases eq_or_ne q p with rfl | hq
    · simp
    · simp [hq]
  · have hc' : (bs.map fun b => (p, b)).foldlM (fun c a => c.cacheBuffer mem a.1 a.2)
        (SessionUnmatchCache.create portNames) = some c := by rwa [List.foldlM_map]
    simpa [SessionUnmatchCache.create, Function.comp_def] using
      (SessionUnmatchCache.foldlM_cacheBuffer hc').1

theorem lastError_of_output_paths_data_then_end :
    let data : Buffer := ⟨⟨⟨1, 7⟩, false, false, ⟨none, 0⟩⟩, some ⟨"failed"⟩⟩
    let stop : Buffer := ⟨⟨⟨1, 7⟩, true, false, ⟨none, 0⟩⟩, none⟩
    let m : MatchStreamData :=
      ⟨7, (∅ : AList fun _ : PortName => List Buffer).insert "in" [data, stop], by decide⟩
    let w : World := ⟨fun _ => false, fun _ => true⟩
    ∃ c, [data, stop].foldlM (fun c b => c.cacheBuffer [] "in" b)
        (SessionUnmatchCache.create ["in"]) = some c ∧
      deliverMatchStreamData w m =
          [.pushGraphOutputBuffer m.session (collectOutput m).1,
            .setLastError m.session (lastErrorOf ([data, stop].filter Buffer.isValid))] ∧
        (∀ q, (collectOutput m).1.lookup q =
          if q = "in" then some ([data, stop].filter Buffer.isValid) else none) ∧
        c.lastError = lastErrorOf [data, stop] ∧
        ((∀ b ∈ [data, stop], b.isValid = false → b.error = none) →
          lastErrorOf ([data, stop].filter Buffer.isValid) = lastErrorOf [data, stop]) := by
  intro data stop m w
  exact ⟨_, rfl, lastError_of_output_paths w m "in" [data, stop] rfl (by simp) rfl rfl [] ["in"]
    _ rfl⟩

/-- A lone end-flag buffer that carries an error: `OutputVirtualNode::Run` skips it before
it reads the error and sets none, while `CacheBuffer` keeps its error. -/
theorem lastError_end_flag_error_differs :
    let stop : Buffer := ⟨⟨⟨1, 7⟩, true, false, ⟨none, 0⟩⟩, some ⟨"failed"⟩⟩
    let m : MatchStreamData :=
      ⟨7, (∅ : AList fun _ : PortName => List Buffer).insert "in" [stop], by decide⟩
    let w : World := ⟨fun _ => false, fun _ => true⟩
    deliverMatchStreamData w m =
        [.pushGraphOutputBuffer 7 ((∅ : OutputBufferList).insert "in" []), .setLastError 7 none] ∧
      ((SessionUnmatchCache.create ["in"]).cacheBuffer [] "in" stop).map (·.lastError) =
        some (some ⟨"failed"⟩) := by
  intro stop m w
  exact ⟨rfl, rfl⟩

end OutputVirtualNode

end ModelBox
