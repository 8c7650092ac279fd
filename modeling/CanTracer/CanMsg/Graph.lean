import CanTracer.CanMsg.Extract

/-!
# Graphs

`CanSignal::getSignalGraph`: a point for each message with the identifier, one in front of them at
the first time of the log and one behind them at its last time.
-/

namespace CanTracer

abbrev Point := ℚ × Double

namespace CanSignal

/-- The variables of the loop over the log. -/
structure Scan where
  ret : List Point := []
  lastTime : ℚ
  lastValue : Double := .num 0
  isFirst : Bool := true

def scanMessage (signal : CanSignal) (id : UInt32) (firstTime : ℚ) (g : Scan) (data : CanLogMsg) :
    Except Failure Scan :=
  if data.id = id then do
    let value ← signal.parseSignal data.data data.dlc
    let ret := if g.isFirst then g.ret ++ [(firstTime, value)] else g.ret
    return { ret := ret ++ [(data.time, value)], lastTime := data.time, lastValue := value, isFirst := false }
  else .ok { g with lastTime := data.time }

/-- `endId` is what reading `log.end()->id` gives. -/
def getSignalGraph (signal : CanSignal) (id : UInt32) (log : List CanLogMsg) (endId : Except Failure UInt32) :
    Except Failure (List Point) := do
  let first ← QList.at log 0
  let g ← log.foldlM (signal.scanMessage id first.time) { lastTime := first.time }
  if log.length ≠ 0 then do
    let endId ← endId
    return if endId ≠ id then g.ret ++ [(g.lastTime, g.lastValue)] else g.ret
  else return g.ret

/-- There is no element at the end of a list. -/
def endId (log : List CanLogMsg) : Except Failure UInt32 := (QList.at log log.length).map (·.id)

/-! ### What the graph holds -/

/-- The point of a message. -/
def decode (signal : CanSignal) (m : CanLogMsg) : Except Failure Point :=
  (signal.parseSignal m.data m.dlc).map fun value => (m.time, value)

def lastValue (points : List Point) : Double := (points.getLast?.map (·.2)).getD (.num 0)

def frontPoint (firstTime : ℚ) (points : List Point) : List Point :=
  (points.head?.map fun p => (firstTime, p.2)).toList

/-- The points with those that the code sets in front of them and, if `behind`, after them. -/
def stretch (firstTime lastTime : ℚ) (behind : Bool) (points : List Point) : List Point :=
  frontPoint firstTime points ++ points ++ if behind then [(lastTime, lastValue points)] else []

/-- The state of the loop after the points of some messages, the last of them at `time`. -/
def scanned (firstTime : ℚ) (points : List Point) (time : ℚ) : Scan where
  ret := frontPoint firstTime points ++ points
  lastTime := time
  lastValue := lastValue points
  isFirst := points.isEmpty

theorem frontPoint_append (firstTime : ℚ) {points : List Point} (some : points ≠ []) (more : List Point) :
    frontPoint firstTime (points ++ more) = frontPoint firstTime points := by
  obtain ⟨p, points, rfl⟩ := List.exists_cons_of_ne_nil some
  rfl

theorem lastValue_concat (points : List Point) (p : Point) : lastValue (points ++ [p]) = p.2 := by
  rw [lastValue, List.getLast?_concat]
  rfl

theorem scanMessage_other (signal : CanSignal) {id : UInt32} (firstTime : ℚ) (points : List Point) (time : ℚ)
    {m : CanLogMsg} (other : m.id ≠ id) :
    signal.scanMessage id firstTime (scanned firstTime points time) m = .ok (scanned firstTime points m.time) := by
  rw [scanMessage, if_neg other]
  rfl

theorem scanMessage_own (signal : CanSignal) {id : UInt32} (firstTime : ℚ) (points : List Point) (time : ℚ)
    {m : CanLogMsg} (own : m.id = id) :
    signal.scanMessage id firstTime (scanned firstTime points time) m =
      (signal.decode m).map fun p => scanned firstTime (points ++ [p]) m.time := by
  rw [scanMessage, if_pos own, decode]
  cases signal.parseSignal m.data m.dlc with
  | error e => rfl
  | ok value =>
    have ret : (if (scanned firstTime points time).isFirst then
        (scanned firstTime points time).ret ++ [(firstTime, value)] else (scanned firstTime points time).ret) ++
          [(m.time, value)] = (scanned firstTime (points ++ [(m.time, value)]) m.time).ret := by
      cases points with
      | nil => rfl
      | cons p points =>
        rw [scanned, scanned, frontPoint_append firstTime (List.cons_ne_nil _ _), ← List.append_assoc]
        rfl
    have last := lastValue_concat points (m.time, value)
    have inner : (points ++ [(m.time, value)]).isEmpty = false := by
      rw [List.isEmpty_eq_false_iff]
      exact List.append_ne_nil_of_right_ne_nil _ (List.cons_ne_nil _ _)
    simp only [bind, Except.bind, pure, Except.pure, Except.map, ret]
    simp only [scanned, last, inner]

/-- The time after the messages. -/
def timeAfter (time : ℚ) (log : List CanLogMsg) : ℚ := (log.getLast?.map (·.time)).getD time

theorem timeAfter_cons (time : ℚ) (m : CanLogMsg) (log : List CanLogMsg) :
    timeAfter time (m :: log) = timeAfter m.time log := by
  rw [timeAfter, timeAfter, List.getLast?_cons]
  cases log.getLast? <;> rfl

theorem scan_eq (signal : CanSignal) (id : UInt32) (firstTime : ℚ) (log : List CanLogMsg) :
    ∀ (points : List Point) (time : ℚ) (g : Scan),
      log.foldlM (signal.scanMessage id firstTime) (scanned firstTime points time) = .ok g ↔
        ∃ new, List.Forall₂ (fun m p => signal.decode m = .ok p) (log.filter (·.id = id)) new ∧
          g = scanned firstTime (points ++ new) (timeAfter time log) := by
  induction log with
  | nil =>
    intro points time g
    rw [List.foldlM_nil, List.filter_nil]
    constructor
    · intro h
      exact ⟨[], .nil, by rw [← Except.ok.inj h, List.append_nil]; rfl⟩
    · rintro ⟨new, none, rfl⟩
      cases none
      rw [List.append_nil]
      rfl
  | cons m log ih =>
    intro points time g
    rw [List.foldlM_cons, timeAfter_cons]
    by_cases own : m.id = id
    · rw [scanMessage_own signal firstTime points time own, List.filter_cons_of_pos (by simpa using own)]
      cases here : signal.decode m with
      | error e =>
        constructor
        · intro h
          cases h
        · rintro ⟨new, all, -⟩
          cases all with
          | cons first rest =>
            rw [here] at first
            cases first
      | ok p =>
        refine (ih (points ++ [p]) m.time g).trans ⟨?_, ?_⟩
        · rintro ⟨new, all, rfl⟩
          exact ⟨p :: new, .cons here all, by rw [List.append_assoc, List.singleton_append]⟩
        · rintro ⟨new, all, rfl⟩
          cases all with
          | cons first rest =>
            obtain rfl := Except.ok.inj (here.symm.trans first)
            exact ⟨_, rest, by rw [List.append_assoc, List.singleton_append]⟩
    · rw [scanMessage_other signal firstTime points time own, List.filter_cons_of_neg (by simpa using own)]
      exact ih points m.time g

/-! ### The graph -/

/-- The points of the messages with the identifier, in the order of the log. -/
def Decoded (signal : CanSignal) (id : UInt32) (log : List CanLogMsg) (points : List Point) : Prop :=
  List.Forall₂ (fun m p => signal.decode m = .ok p) (log.filter (·.id = id)) points

theorem getSignalGraph_eq (signal : CanSignal) (id : UInt32) (first : CanLogMsg) (log : List CanLogMsg)
    (found : UInt32) :
    signal.getSignalGraph id (first :: log) (.ok found) =
      ((first :: log).foldlM (signal.scanMessage id first.time) (scanned first.time [] first.time)).map fun g =>
        if found ≠ id then g.ret ++ [(g.lastTime, g.lastValue)] else g.ret := by
  unfold getSignalGraph
  change ((first :: log).foldlM (signal.scanMessage id first.time) (scanned first.time [] first.time) >>= _) = _
  cases (first :: log).foldlM (signal.scanMessage id first.time) (scanned first.time [] first.time) <;> rfl

theorem graph_iff (signal : CanSignal) (id : UInt32) {log : List CanLogMsg} (nonempty : log ≠ []) (found : UInt32)
    (graph : List Point) :
    signal.getSignalGraph id log (.ok found) = .ok graph ↔
      ∃ points, signal.Decoded id log points ∧
        graph = stretch (log.head nonempty).time (log.getLast nonempty).time (found ≠ id) points := by
  obtain ⟨first, log, rfl⟩ := List.exists_cons_of_ne_nil nonempty
  have last : timeAfter first.time (first :: log) = ((first :: log).getLast nonempty).time := by
    rw [timeAfter, List.getLast?_eq_some_getLast nonempty]
    rfl
  have ended (points : List Point) :
      (if found ≠ id then
        (scanned first.time points (timeAfter first.time (first :: log))).ret ++
          [(timeAfter first.time (first :: log), lastValue points)]
      else (scanned first.time points (timeAfter first.time (first :: log))).ret) =
        stretch first.time ((first :: log).getLast nonempty).time (found ≠ id) points := by
    rw [last, stretch]
    by_cases behind : found = id
    · simp [behind, scanned]
    · simp [behind, scanned]
  rw [getSignalGraph_eq]
  have scan := scan_eq signal id first.time (first :: log) [] first.time
  cases run : (first :: log).foldlM (signal.scanMessage id first.time) (scanned first.time [] first.time) with
  | error e =>
    constructor
    · intro h
      cases h
    · rintro ⟨points, all, -⟩
      have stop := (scan _).mpr ⟨points, all, rfl⟩
      rw [run] at stop
      cases stop
  | ok g =>
    obtain ⟨points, all, rfl⟩ := (scan g).mp run
    constructor
    · intro h
      exact ⟨points, all, (Except.ok.inj h).symm.trans (ended points)⟩
    · rintro ⟨points', all', rfl⟩
      have same := (scan _).mpr ⟨points', all', rfl⟩
      rw [run] at same
      have ret := Except.ok.inj same
      change Except.ok _ = Except.ok _
      rw [ret]
      exact congrArg Except.ok (ended points')

/-- Over a log that is not empty, only the decoder makes it fail. -/
theorem getSignalGraph_ne_error {e : Failure} (notRange : e ≠ .outOfRange) (notShift : e ≠ .undefined .shift)
    (signal : CanSignal) (id : UInt32) {log : List CanLogMsg} (nonempty : log ≠ []) (found : UInt32) :
    signal.getSignalGraph id log (.ok found) ≠ .error e := by
  have scan (firstTime : ℚ) (log : List CanLogMsg) (g : Scan) :
      log.foldlM (signal.scanMessage id firstTime) g ≠ .error e := by
    induction log generalizing g with
    | nil => nofun
    | cons m log ih =>
      refine bind_ne_error ?_ ih
      unfold scanMessage
      split
      · exact bind_ne_error (parseSignal_ne_error notRange notShift signal m.data m.dlc) fun _ => nofun
      · nofun
  obtain ⟨first, log, rfl⟩ := List.exists_cons_of_ne_nil nonempty
  rw [getSignalGraph_eq]
  exact bind_ne_error (scan first.time (first :: log) _) fun _ => nofun

theorem decode_time {signal : CanSignal} {m : CanLogMsg} {p : Point} (h : signal.decode m = .ok p) :
    p.1 = m.time := by
  obtain ⟨value, -, rfl⟩ := map_ok h
  rfl

theorem Decoded.times {signal : CanSignal} {id : UInt32} {log : List CanLogMsg} {points : List Point}
    (decoded : signal.Decoded id log points) :
    points.map (·.1) = (log.filter (·.id = id)).map (·.time) := by
  unfold Decoded at decoded
  generalize log.filter (·.id = id) = own at decoded
  induction decoded with
  | nil => rfl
  | cons first rest ih => rw [List.map_cons, List.map_cons, ih, decode_time first]

theorem stretch_times (firstTime lastTime : ℚ) (behind : Bool) (points : List Point) :
    (stretch firstTime lastTime behind points).map (·.1) =
      (if points = [] then [] else [firstTime]) ++ points.map (·.1) ++ if behind then [lastTime] else [] := by
  rw [stretch, List.map_append, List.map_append]
  cases points <;> cases behind <;> rfl

/-- In a log with its times in order the first is the least and the last the greatest. -/
theorem head_le {log : List CanLogMsg} (ordered : log.Pairwise (·.time ≤ ·.time)) (nonempty : log ≠ []) :
    ∀ m ∈ log, (log.head nonempty).time ≤ m.time := by
  obtain ⟨first, log, rfl⟩ := List.exists_cons_of_ne_nil nonempty
  intro m hm
  rcases List.mem_cons.mp hm with rfl | later
  · exact le_refl _
  · exact (List.pairwise_cons.mp ordered).1 m later

theorem le_getLast {log : List CanLogMsg} (ordered : log.Pairwise (·.time ≤ ·.time)) (nonempty : log ≠ []) :
    ∀ m ∈ log, m.time ≤ (log.getLast nonempty).time := by
  intro m hm
  have parts := List.dropLast_append_getLast nonempty
  rw [← parts, List.mem_append, List.mem_singleton] at hm
  rcases hm with before | rfl
  · rw [← parts] at ordered
    exact (List.pairwise_append.mp ordered).2.2 m before _ (List.mem_singleton.mpr rfl)
  · exact le_refl _

theorem stretch_ordered {signal : CanSignal} {id : UInt32} {log : List CanLogMsg} (nonempty : log ≠ [])
    (ordered : log.Pairwise (·.time ≤ ·.time)) {points : List Point} (decoded : signal.Decoded id log points)
    (behind : Bool) :
    (stretch (log.head nonempty).time (log.getLast nonempty).time behind points).Pairwise (·.1 ≤ ·.1) := by
  have own : (points.map (·.1)).Pairwise (· ≤ ·) := by
    rw [decoded.times, List.pairwise_map]
    exact ordered.filter _
  have inside : ∀ t ∈ points.map (·.1), ∃ m ∈ log, m.time = t := by
    intro t ht
    rw [decoded.times] at ht
    obtain ⟨m, hm, rfl⟩ := List.mem_map.mp ht
    exact ⟨m, List.mem_of_mem_filter hm, rfl⟩
  have front : ∀ s ∈ (if points = [] then [] else [(log.head nonempty).time]), s = (log.head nonempty).time := by
    intro s hs
    split at hs
    · cases hs
    · exact List.mem_singleton.mp hs
  rw [← List.pairwise_map (f := fun p : Point => p.1) (R := (· ≤ ·)), stretch_times]
  refine List.pairwise_append.mpr ⟨List.pairwise_append.mpr ⟨?_, own, fun s hs t ht => ?_⟩, ?_, fun s hs t ht => ?_⟩
  · split
    · exact .nil
    · exact List.pairwise_singleton _ _
  · obtain ⟨m, hm, rfl⟩ := inside t ht
    rw [front s hs]
    exact head_le ordered nonempty m hm
  · split
    · exact List.pairwise_singleton _ _
    · exact .nil
  · have back : t = (log.getLast nonempty).time := by
      split at ht
      · exact List.mem_singleton.mp ht
      · cases ht
    rw [back]
    rcases List.mem_append.mp hs with hs | hs
    · rw [front s hs]
      exact le_getLast ordered nonempty _ (List.head_mem nonempty)
    · obtain ⟨m, hm, rfl⟩ := inside s hs
      exact le_getLast ordered nonempty m hm

/-- The graph holds the points of the messages with the identifier, drawn out to the ends of the log,
and its times stay in order. -/
theorem getSignalGraph_content (signal : CanSignal) (id : UInt32) (log : List CanLogMsg) (nonempty : log ≠ [])
    (found : UInt32) :
    (∀ graph, signal.getSignalGraph id log (.ok found) = .ok graph ↔
      ∃ points, signal.Decoded id log points ∧
        graph = stretch (log.head nonempty).time (log.getLast nonempty).time (found ≠ id) points) ∧
    (log.Pairwise (·.time ≤ ·.time) → ∀ graph, signal.getSignalGraph id log (.ok found) = .ok graph →
      graph.Pairwise (·.1 ≤ ·.1)) := by
  refine ⟨graph_iff signal id nonempty found, fun ordered graph h => ?_⟩
  obtain ⟨points, decoded, rfl⟩ := (graph_iff signal id nonempty found graph).mp h
  exact stretch_ordered nonempty ordered decoded _

def speed : CanSignal where
  startBit := 0
  len := 8
  isBigEndian := true
  isSigned := false
  scale := 1
  offset := 0

def drive : List CanLogMsg := [{ id := 2, time := 1 }, { id := 1, time := 2 }, { id := 2, time := 3 }]

theorem getSignalGraph_content_drive :
    (∀ graph, speed.getSignalGraph 1 drive (.ok 0) = .ok graph ↔
      ∃ points, speed.Decoded 1 drive points ∧ graph = stretch 1 3 true points) ∧
    (drive.Pairwise (·.time ≤ ·.time) → ∀ graph, speed.getSignalGraph 1 drive (.ok 0) = .ok graph →
      graph.Pairwise (·.1 ≤ ·.1)) :=
  getSignalGraph_content speed 1 drive (List.cons_ne_nil _ _) 0

example : speed.getSignalGraph 1 drive (.ok 0) = .ok [(1, .num 0), (2, .num 0), (3, .num 0)] := by decide +kernel

/-! ### Its range -/

/-- The graph runs from the first to the last time of the log. -/
structure Spans (log : List CanLogMsg) (graph : List Point) : Prop where
  first : graph.head?.map (·.1) = log.head?.map (·.time)
  last : graph.getLast?.map (·.1) = log.getLast?.map (·.time)

/-- Nothing is read outside the log, and in a log with its times in order the graph has their range. -/
def Ranges (signal : CanSignal) (id : UInt32) (log : List CanLogMsg) : Prop :=
  ∃ graph, signal.getSignalGraph id log (endId log) = .ok graph ∧
    (log.Pairwise (·.time ≤ ·.time) → log ≠ [] → Spans log graph)

theorem endId_error (log : List CanLogMsg) : endId log = .error (.undefined .arrayIndex) := by
  rw [endId, QList.at, dif_neg (Nat.lt_irrefl _)]
  rfl

/-- An empty log has no first element, and with any other the test after the loop reads past the last. -/
theorem getSignalGraph_outside (signal : CanSignal) (id : UInt32) (log : List CanLogMsg) : ¬ signal.Ranges id log := by
  rintro ⟨graph, h, -⟩
  cases log with
  | nil => cases h
  | cons first log =>
    unfold getSignalGraph at h
    rw [endId_error] at h
    obtain ⟨_, -, h⟩ := bind_ok h
    obtain ⟨g, -, h⟩ := bind_ok h
    cases h

theorem getSignalGraph_outside_drive : ¬ ∀ signal id log, Ranges signal id log := by
  intro h
  obtain ⟨graph, read, -⟩ := h speed 1 drive
  have outside : speed.getSignalGraph 1 drive (endId drive) = .error (.undefined .arrayIndex) := by decide +kernel
  rw [read] at outside
  cases outside

/-- The range is right when some message has the identifier, and the last one has it or a point is set
behind it. -/
theorem getSignalGraph_spans {signal : CanSignal} {id : UInt32} {log : List CanLogMsg} (nonempty : log ≠ [])
    {found : UInt32} {graph : List Point} (h : signal.getSignalGraph id log (.ok found) = .ok graph)
    (own : ∃ m ∈ log, m.id = id) (reaches : found ≠ id ∨ (log.getLast nonempty).id = id) : Spans log graph := by
  obtain ⟨points, decoded, rfl⟩ := (graph_iff signal id nonempty found graph).mp h
  have times := decoded.times
  obtain ⟨m, hm, here⟩ := own
  have some : points ≠ [] := by
    rintro rfl
    have empty := List.map_eq_nil_iff.mp times.symm
    exact List.filter_eq_nil_iff.mp empty m hm (by simpa using here)
  constructor
  · rw [← List.head?_map, stretch_times, if_neg some, List.head?_eq_some_head nonempty]
    rfl
  · rw [← List.getLast?_map, stretch_times, List.getLast?_eq_some_getLast nonempty]
    by_cases behind : found = id
    · have last := reaches.resolve_left (not_not.mpr behind)
      have kept : (log.filter (·.id = id)).getLast? = log.getLast? := by
        have parts := List.dropLast_append_getLast nonempty
        rw [← parts, List.filter_append, List.filter_cons_of_pos (by simpa using last), List.filter_nil,
          List.getLast?_concat, List.getLast?_concat]
      have here : ¬ (decide (found ≠ id) = true) := by simpa using behind
      rw [if_neg here, List.append_nil, List.getLast?_append, times, List.getLast?_map, kept,
        List.getLast?_eq_some_getLast nonempty]
      rfl
    · rw [if_pos (decide_eq_true behind)]
      exact List.getLast?_concat

end CanSignal
end CanTracer
