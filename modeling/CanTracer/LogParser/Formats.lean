import CanTracer.Blf.Growing
import CanTracer.Blf.RoundTrip
import CanTracer.CanLogModel.Rows
import CanTracer.CanMsg.Graph
import CanTracer.CanMsg.Locality
import CanTracer.LogParser.RoundTrip

/-!
# One recording in three formats

The frames of a recording may be written as lines of a TRC log, as lines of an ASC log or as objects of a BLF
file. Which of them is opened shows in the numbers, the times and the channels alone.
-/

namespace CanTracer

/-! ### Two runs of one computation -/

/-- Both fail with the same failure or both return, and then what they return is related. -/
inductive Outcomes {ε α β : Type} (R : α → β → Prop) : Except ε α → Except ε β → Prop
  | error (e : ε) : Outcomes R (.error e) (.error e)
  | ok {a : α} {b : β} (related : R a b) : Outcomes R (.ok a) (.ok b)

section
variable {ε α β σ τ : Type} {R : α → β → Prop} {S : σ → τ → Prop}

theorem Outcomes.eq {x y : Except ε α} (both : Outcomes Eq x y) : x = y := by
  cases both with
  | error e => rfl
  | ok same => rw [same]

theorem Outcomes.bind {x : Except ε α} {y : Except ε β} {f : α → Except ε σ} {g : β → Except ε τ} (both : Outcomes R x y)
    (next : ∀ a b, R a b → Outcomes S (f a) (g b)) : Outcomes S (x >>= f) (y >>= g) := by
  cases both with
  | error e => exact .error e
  | ok related => exact next _ _ related

theorem Outcomes.foldlM {f : σ → α → Except ε σ} {g : τ → β → Except ε τ}
    (step : ∀ s t a b, S s t → R a b → Outcomes S (f s a) (g t b)) {as : List α} {bs : List β}
    (related : List.Forall₂ R as bs) : ∀ s t, S s t → Outcomes S (as.foldlM f s) (bs.foldlM g t) := by
  induction related with
  | nil => exact fun s t start => .ok start
  | cons first rest ih =>
    intro s t start
    rw [List.foldlM_cons, List.foldlM_cons]
    exact (step s t _ _ start first).bind ih

end

theorem forall₂_through {α β γ : Type} {P : α → β → Prop} {Q : α → γ → Prop} {R : β → γ → Prop}
    (both : ∀ a b c, P a b → Q a c → R b c) {as : List α} {bs : List β} {cs : List γ} (first : List.Forall₂ P as bs) :
    List.Forall₂ Q as cs → List.Forall₂ R bs cs := by
  induction first generalizing cs with
  | nil =>
    intro second
    cases second
    exact .nil
  | cons here _ ih =>
    intro second
    cases second with
    | cons there rest => exact .cons (both _ _ _ here there) (ih rest)

theorem forall₂_mapIdx {α β : Type} {R : α → β → Prop} (as : List α) :
    ∀ {g : Nat → α → β}, (∀ i a, R a (g i a)) → List.Forall₂ R as (as.mapIdx g) := by
  induction as with
  | nil => exact fun _ => .nil
  | cons a as ih =>
    intro g related
    rw [List.mapIdx_cons]
    exact .cons (related 0 a) (ih fun i => related (i + 1))

/-- The messages agree but for the number, the time, the channel, the direction and the bytes behind the DLC. -/
structure CanLogMsg.Alike (m m' : CanLogMsg) : Prop where
  id : m.id = m'.id
  dlc : m.dlc = m'.dlc
  short : m.dlc.toNat ≤ canMaxDlc
  data : ∀ i < m.dlc.toNat, m.data[i]? = m'.data[i]?

/-- The points have the same value, at times that are related. -/
def SameValue (T : ℚ → ℚ → Prop) (p p' : Point) : Prop := T p.1 p'.1 ∧ p.2 = p'.2

namespace CanLogMsg.Alike

variable {m m' : CanLogMsg}

theorem parseSignal (alike : m.Alike m') (signal : CanSignal) :
    signal.parseSignal m.data m.dlc = signal.parseSignal m'.data m'.dlc := by
  rw [← alike.dlc]
  exact CanSignal.parseSignal_bytes alike.short alike.data

theorem dataColumn (alike : m.Alike m') : CanTracer.dataColumn m = CanTracer.dataColumn m' := by
  rw [CanTracer.dataColumn, CanTracer.dataColumn, ← alike.dlc]
  refine (Outcomes.foldlM (R := fun i j => i = j ∧ i < m.dlc.toNat) ?_ ?_ [] [] rfl).eq
  · rintro text _ i _ rfl ⟨rfl, inside⟩
    have bound := Nat.lt_of_lt_of_le inside alike.short
    have same := alike.data i inside
    rw [Vector.getElem?_eq_getElem bound, Vector.getElem?_eq_getElem bound] at same
    rw [CanData.index, CanData.index, dif_pos bound, dif_pos bound, Option.some.inj same]
    exact .ok rfl
  · exact List.forall₂_same.mpr fun i among => ⟨rfl, List.mem_range.mp among⟩

theorem displayMessageRow (alike : m.Alike m') (fixed : ℚ → QString) (db : CanDb) {column : Nat} (number : column ≠ 0)
    (time : column ≠ 1) (channel : column ≠ 2) :
    CanLogModel.displayMessageRow fixed db m column = CanLogModel.displayMessageRow fixed db m' column := by
  match column with
  | 0 | 1 | 2 => contradiction
  | 3 => rw [CanLogModel.displayMessageRow, CanLogModel.displayMessageRow, alike.id]
  | 4 => rw [CanLogModel.displayMessageRow, CanLogModel.displayMessageRow, alike.dlc]
  | 5 => rw [CanLogModel.displayMessageRow, CanLogModel.displayMessageRow, alike.id]
  | 6 => rw [CanLogModel.displayMessageRow, CanLogModel.displayMessageRow, alike.dataColumn]
  | n + 7 => rfl

theorem displaySignalRow (alike : m.Alike m') (print : Double → QString) (msg : CanMessage) (row column : Nat) :
    CanTracer.displaySignalRow print msg m row column = CanTracer.displaySignalRow print msg m' row column := by
  simp only [CanTracer.displaySignalRow, alike.parseSignal]

end CanLogMsg.Alike

/-! ### Graphs over related times -/

/-- The loops over the logs have come to the same values, at related times. -/
structure Scans (T : ℚ → ℚ → Prop) (g g' : CanSignal.Scan) : Prop where
  ret : List.Forall₂ (SameValue T) g.ret g'.ret
  lastTime : T g.lastTime g'.lastTime
  lastValue : g.lastValue = g'.lastValue
  isFirst : g.isFirst = g'.isFirst

section
variable {T : ℚ → ℚ → Prop}

theorem Scans.scanMessage {g g' : CanSignal.Scan} (scans : Scans T g g') (signal : CanSignal) (id : UInt32)
    {firstTime firstTime' : ℚ} (first : T firstTime firstTime') {m m' : CanLogMsg} (alike : m.Alike m')
    (times : T m.time m'.time) :
    Outcomes (Scans T) (signal.scanMessage id firstTime g m) (signal.scanMessage id firstTime' g' m') := by
  rw [CanSignal.scanMessage, CanSignal.scanMessage, alike.id]
  split
  · rw [alike.parseSignal]
    cases signal.parseSignal m'.data m'.dlc with
    | error failure => exact .error failure
    | ok value =>
      have front : List.Forall₂ (SameValue T) (if g.isFirst then g.ret ++ [(firstTime, value)] else g.ret)
          (if g'.isFirst then g'.ret ++ [(firstTime', value)] else g'.ret) := by
        rw [scans.isFirst]
        split
        · exact List.rel_append scans.ret (.cons ⟨first, rfl⟩ .nil)
        · exact scans.ret
      exact .ok ⟨List.rel_append front (.cons ⟨times, rfl⟩ .nil), times, rfl, rfl⟩
  · exact .ok ⟨scans.ret, times, scans.lastValue, scans.isFirst⟩

end

/-- What every format holds of a frame, whatever it makes of the time. -/
structure Sample where
  id : UInt32
  dlc : UInt8
  data : Bytes
  short : dlc.toNat ≤ canMaxDlc
  length : data.length = dlc.toNat

/-- The message holds the sample. -/
structure CanLogMsg.Holds (msg : CanLogMsg) (x : Sample) : Prop where
  id : msg.id = x.id
  dlc : msg.dlc = x.dlc
  data : ∀ i < x.dlc.toNat, msg.data[i]? = x.data[i]?

theorem CanLogMsg.Holds.alike {m m' : CanLogMsg} {x : Sample} (holds : m.Holds x) (holds' : m'.Holds x) : m.Alike m' where
  id := holds.id.trans holds'.id.symm
  dlc := holds.dlc.trans holds'.dlc.symm
  short := holds.dlc ▸ x.short
  data i inside := (holds.data i (holds.dlc ▸ inside)).trans (holds'.data i (holds.dlc ▸ inside)).symm

structure Frame.Writes (f : Frame) (x : Sample) : Prop where
  id : f.id.value = x.id.toNat
  data : f.bytes = x.data

/-- Bits above the identifier count for nothing. -/
def Blf.Frame.Writes (f : Blf.Frame) (x : Sample) : Prop := (f.message 0).Holds x

/-- The file is a recording of the samples. -/
inductive Records (qt : Qt) (xs : List Sample) : Format → File → Prop
  | trc (entries : List (Entry (TrcFrame qt) TrcDriver.Noise)) (file : File)
    (lines : readLines file.text = entries.map (Entry.line TrcFrame.line))
    (writes : List.Forall₂ (fun f x => f.toFrame.Writes x) (frames entries) xs) : Records qt xs .trc file
  | asc (entries : List (Entry (AscFrame qt) AscDriver.Noise)) (file : File)
    (lines : readLines file.text = entries.map (Entry.line AscFrame.line))
    (writes : List.Forall₂ (fun f x => f.toFrame.Writes x) (frames entries) xs) : Records qt xs .asc file
  | blf (head : Blf.Head) (fs : List Blf.Frame) (cs : List (Blf.Container qt)) (file : File)
    (bytes : file.bytes = head.bytes ++ cs.flatMap Blf.Container.bytes)
    (cut : (cs.map Blf.Container.chunk).flatten = fs.flatMap Blf.Frame.bytes)
    (small : ∀ c ∈ cs, c.bytes.length < 2 ^ 31)
    (writes : List.Forall₂ Blf.Frame.Writes fs xs) : Records qt xs .blf file

/-! ### Recordings read -/

theorem Frame.ReadAs.holds {f : Frame} {x : Sample} {number channel : Nat} {msg : CanLogMsg} (read : f.ReadAs number channel msg)
    (writes : f.Writes x) : msg.Holds x := by
  have dlc : f.dlc.value = x.dlc.toNat := by rw [← f.length, writes.data, x.length]
  refine ⟨UInt32.toNat_inj.mp (read.id.trans writes.id), UInt8.toNat_inj.mp (read.dlc.trans dlc), fun i inside => ?_⟩
  rw [← Vector.getElem?_toList, read.data, writes.data, List.getElem?_append_left (by rw [x.length]; exact inside)]

variable {qt : Qt} {xs : List Sample}

theorem parse_trc {entries : List (Entry (TrcFrame qt) TrcDriver.Noise)} {file : File}
    (lines : readLines file.text = entries.map (Entry.line TrcFrame.line))
    (writes : List.Forall₂ (fun f x => f.toFrame.Writes x) (frames entries) xs) :
    ∃ log, (TrcDriver.driver qt).parse (some file) = .ok log ∧ List.Forall₂ CanLogMsg.Holds log xs := by
  have noise (line : QString) (_ : Nat) (h : TrcDriver.Noise line) : (TrcDriver.driver qt).parseLine line () = .ok none :=
    congrArg (Except.map _) (TrcDriver.parseLine_noise h)
  have frame (f : TrcFrame qt) (_ : Nat) :
      ∃ msg, (TrcDriver.driver qt).parseLine f.line () = .ok (some (msg, ())) ∧ ∀ x, f.toFrame.Writes x → msg.Holds x := by
    obtain ⟨msg, first, read⟩ := f.parseLine
    exact ⟨msg, congrArg (Except.map _) first, fun x writes => read.holds writes⟩
  obtain ⟨log, parsed, read⟩ := (TrcDriver.driver qt).parseLines_entries (fun _ => ()) TrcFrame.line noise frame entries 0
  refine ⟨log, by rw [TextDriver.parse, lines]; exact parsed, ?_⟩
  rw [← List.zipIdx_map_fst 0 (frames entries), List.forall₂_map_left_iff] at writes
  exact forall₂_through (fun _ _ x holds writes => holds x writes) read writes

theorem parse_asc {entries : List (Entry (AscFrame qt) AscDriver.Noise)} {file : File}
    (lines : readLines file.text = entries.map (Entry.line AscFrame.line))
    (writes : List.Forall₂ (fun f x => f.toFrame.Writes x) (frames entries) xs) :
    ∃ log, (AscDriver.driver qt).parse (some file) = .ok log ∧ List.Forall₂ CanLogMsg.Holds log xs := by
  have noise (line : QString) (k : Nat) (h : AscDriver.Noise line) :
      (AscDriver.driver qt).parseLine line k.toUInt32 = .ok none :=
    congrArg (Except.map _) (AscDriver.parseLine_noise h k.toUInt32)
  have frame (f : AscFrame qt) (k : Nat) :
      ∃ msg, (AscDriver.driver qt).parseLine f.line k.toUInt32 = .ok (some (msg, (k + 1).toUInt32)) ∧
        ∀ x, f.toFrame.Writes x → msg.Holds x := by
    obtain ⟨msg, first, read⟩ := f.parseLine k
    have next : k.toUInt32 + 1 = (k + 1).toUInt32 := (UInt32.ofNat_add k 1).symm
    exact ⟨msg, next ▸ congrArg (Except.map _) first, fun x writes => read.holds writes⟩
  obtain ⟨log, parsed, read⟩ := (AscDriver.driver qt).parseLines_entries Nat.toUInt32 AscFrame.line noise frame entries 0
  refine ⟨log, by rw [TextDriver.parse, lines]; exact parsed, ?_⟩
  rw [← List.zipIdx_map_fst 0 (frames entries), List.forall₂_map_left_iff] at writes
  exact forall₂_through (fun _ _ x holds writes => holds x writes) read writes

theorem parse_blf (head : Blf.Head) {fs : List Blf.Frame} {cs : List (Blf.Container qt)}
    (cut : (cs.map Blf.Container.chunk).flatten = fs.flatMap Blf.Frame.bytes) (small : ∀ c ∈ cs, c.bytes.length < 2 ^ 31)
    (writes : List.Forall₂ Blf.Frame.Writes fs xs) {fuel : Nat}
    (enough : 2 + (fs.flatMap Blf.Frame.bytes).length + cs.length ≤ fuel) :
    ∃ log, Blf.parse qt fuel (head.bytes ++ cs.flatMap Blf.Container.bytes) = some (.ok log) ∧
      List.Forall₂ CanLogMsg.Holds log xs := by
  obtain ⟨st, ran, messages⟩ := Blf.feed_frames cut fuel (by omega)
  refine ⟨st.messages, ?_, ?_⟩
  · rw [head.parse_eq, Blf.outerLoop_containers qt fuel cs fuel {} (by omega) small, ran]
    rfl
  · have read : List.Forall₂ (fun f msg => ∀ x, Blf.Frame.Writes f x → msg.Holds x) fs st.messages := by
      rw [messages]
      exact forall₂_mapIdx fs fun i f x holds => ⟨holds.id, holds.dlc, holds.data⟩
    exact forall₂_through (fun _ _ x holds writes => holds x writes) read writes

theorem Records.reads {format : Format} {file : File} (records : Records qt xs format file) :
    ∃ enough, ∀ fuel ≥ enough, ∀ name, formatOf name = some format →
      ∃ log, Parser.parse qt fuel name (some file) = some (.ok log) ∧ List.Forall₂ CanLogMsg.Holds log xs := by
  cases records with
  | trc entries _ lines writes =>
    refine ⟨0, fun fuel _ name named => ?_⟩
    obtain ⟨log, parsed, holds⟩ := parse_trc lines writes
    exact ⟨log, by rw [Parser.parse, named]; exact congrArg some parsed, holds⟩
  | asc entries _ lines writes =>
    refine ⟨0, fun fuel _ name named => ?_⟩
    obtain ⟨log, parsed, holds⟩ := parse_asc lines writes
    exact ⟨log, by rw [Parser.parse, named]; exact congrArg some parsed, holds⟩
  | blf head fs cs _ bytes cut small writes =>
    refine ⟨2 + (fs.flatMap Blf.Frame.bytes).length + cs.length, fun fuel enough name named => ?_⟩
    obtain ⟨log, parsed, holds⟩ := parse_blf head cut small writes enough
    exact ⟨log, by rw [Parser.parse, named, bytes]; exact parsed, holds⟩

end CanTracer
