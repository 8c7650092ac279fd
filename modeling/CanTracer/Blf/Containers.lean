import CanTracer.Blf.Object

/-!
# Objects cut into containers

The stream of objects reaches `parseObject` in containers that may end anywhere. The carried
bytes, the unread bytes and the containers to come are together the rest of the stream.
-/

namespace CanTracer.Blf

def stream (os : List Object) : Bytes := os.flatMap fun o => o.bytes ++ zeros o.padding

def feed (fuel : Nat) : List Bytes → State → Option State
  | [], st => some st
  | c :: cs, st => (innerLoop fuel c st).bind (feed fuel cs)

def calls (fuel : Nat) (c : Bytes) (st : State) : List Bytes :=
  ((Loop.visited innerBody fuel (c, st)).filter (·.1.length ≠ 0)).map fun x => buffer x.1 x.2

def feedCalls (fuel : Nat) : List Bytes → State → List Bytes
  | [], _ => []
  | c :: cs, st => calls fuel c st ++ (innerLoop fuel c st).elim [] (feedCalls fuel cs)

/-! ### Safe calls -/

def objSizeAt (b : Bytes) (index : Nat) : Nat := field (index + 8) 4 b

/-- The position that `parseObject` returns is an `int`, and when no signature follows the object
then no more bytes are skipped than the object is padded with. -/
def SafeAt (b : Bytes) (index : Nat) : Prop :=
  (b.length < index + objSizeAt b index → b.length < 2 ^ 31) ∧
  (index + objSizeAt b index ≤ b.length →
    (∀ next ∈ indexOfFrom lobj b (index + objSizeAt b index), next < 2 ^ 31) ∧
    (indexOfFrom lobj b (index + objSizeAt b index) = none →
      index + objSizeAt b index + (index + objSizeAt b index) % 4 < 2 ^ 31 ∧
      min ((index + objSizeAt b index) % 4) (b.length - (index + objSizeAt b index)) ≤ objSizeAt b index % 4))

instance (b : Bytes) (index : Nat) : Decidable (SafeAt b index) := inferInstanceAs (Decidable (_ ∧ _))

/-- A buffer that `parseObject` handles without losing its place. -/
def StepSafe (b : Bytes) : Prop := 16 ≤ b.length → ∀ index ∈ indexOf lobj b, SafeAt b index

instance (b : Bytes) : Decidable (StepSafe b) := inferInstanceAs (Decidable (_ → _))

/-! ### One round of the inner loop -/

theorem narrowInt_small {n : Nat} (h : n < 2 ^ 31) : narrowInt n = n := by
  unfold narrowInt
  rw [Int.bmod_eq_of_le] <;> omega

/-- The bytes carried over, unread and to come are at most `limit` zero bytes and a stream of `ok`
objects whose messages complete `all`; the bytes carried over are not yet a whole object. -/
def Kept (ok : Object → Prop) (limit total : Nat) (all : List CanLogMsg) (future : Bytes) (x : Bytes × State) : Prop :=
  ∃ p os, p ≤ limit ∧ (∀ o ∈ os, ok o) ∧ p + (stream os).length ≤ total ∧
    x.2.remain ++ x.1 ++ future = zeros p ++ stream os ∧ x.2.messages ++ decodeAll os x.2.counter = all ∧
    ∀ o ∈ os.head?, x.2.remain.length < p + o.size

def rounds (x : Bytes × State) : Nat := if x.1 = [] then 0 else 1 + x.2.remain.length + x.1.length

variable {ok : Object → Prop} {limit total : Nat} {all : List CanLogMsg} {future c : Bytes} {st : State}

theorem buffer_eq (c : Bytes) (st : State) : buffer c st = st.remain ++ c := by
  unfold buffer
  split
  · rfl
  · rename_i none
    rw [List.length_eq_zero_iff.mp (not_not.mp none), List.nil_append]

theorem rounds_unread (h : c ≠ []) : rounds (c, st) = 1 + (buffer c st).length := by
  rw [buffer_eq, List.length_append, rounds, if_neg h, Nat.add_assoc]

theorem innerBody_next {ret : Nat} {st' : State} (unread : c ≠ [])
    (h : parseObject (buffer c st) st = ((ret : Int), st')) (pos : 0 < ret) :
    innerBody (c, st) = some (.next ((buffer c st).drop ret, st')) := by
  have some : ¬c.length = 0 := fun h => unread (List.length_eq_zero_iff.mp h)
  rw [innerBody, if_neg some]
  simp only [h]
  rw [if_pos (by omega)]
  rfl

theorem innerBody_carry (unread : c ≠ []) (fits : (buffer c st).length < 2 ^ 31)
    (h : parseObject (buffer c st) st = (narrowInt (buffer c st).length, { st with remain := buffer c st })) :
    innerBody (c, st) = some (.next ([], { st with remain := buffer c st })) := by
  have pos : 0 < (buffer c st).length := by
    rw [buffer_eq, List.length_append]
    have := List.length_pos_iff.mpr unread
    omega
  rw [narrowInt_small fits] at h
  rw [innerBody_next unread h pos, List.drop_length]

theorem drop_padding {x t : Bytes} {pad skip : Nat} (h : x ++ future = zeros pad ++ t)
    (few : min skip x.length ≤ pad) : x.drop skip ++ future = zeros (pad - min skip x.length) ++ t := by
  have cut : x.drop skip = x.drop (min skip x.length) := by
    rcases Nat.le_total skip x.length with le | le
    · rw [Nat.min_eq_left le]
    · rw [Nat.min_eq_right le, List.drop_length, List.drop_eq_nil_of_le le]
  rw [cut, ← List.drop_append_of_le_length (Nat.min_le_right _ _), h,
    List.drop_append_of_le_length (by rw [zeros_length]; exact few), zeros, List.drop_replicate]
  rfl

theorem stream_signature (os : List Object) : stream os = [] ∨ lobj <+: stream os := by
  cases os with
  | nil => exact .inl rfl
  | cons o os =>
    refine .inr (o.signature.trans ⟨zeros o.padding ++ stream os, ?_⟩)
    rw [← List.append_assoc]
    rfl

theorem stream_cons (o : Object) (os : List Object) :
    stream (o :: os) = o.bytes ++ (zeros o.padding ++ stream os) :=
  List.append_assoc _ _ _

theorem split_object {b : Bytes} {p : Nat} {o : Object} {os : List Object}
    (h : b ++ future = zeros p ++ stream (o :: os)) (reaches : p + o.size ≤ b.length) :
    ∃ rest, b = zeros p ++ (o.bytes ++ rest) ∧ rest ++ future = zeros o.padding ++ stream os := by
  have front : zeros p ++ o.bytes <+: b := by
    refine List.prefix_of_prefix_length_le ⟨zeros o.padding ++ stream os, ?_⟩ (List.prefix_append b future)
      (by rw [List.length_append, zeros_length]; exact reaches)
    rw [h, stream_cons, List.append_assoc]
  obtain ⟨rest, rfl⟩ := front
  refine ⟨rest, List.append_assoc _ _ _, ?_⟩
  rw [stream_cons, ← List.append_assoc (zeros p), List.append_assoc (zeros p ++ o.bytes)] at h
  exact List.append_cancel_left h

theorem objSizeAt_object {b : Bytes} {p : Nat} {o : Object} {post : Bytes} (hp : p ≤ 3)
    (hb : b <+: zeros p ++ (o.bytes ++ post)) (long : 16 ≤ b.length) : objSizeAt b p = o.size := by
  have sixteen : 16 ≤ o.bytes.length := o.sixteen_le_size
  exact (field_object hb (by omega) (by omega)).trans o.sizeStated

theorem indexOf_object {b : Bytes} {p : Nat} {o : Object} {post : Bytes} (hp : p ≤ 3)
    (hb : b <+: zeros p ++ (o.bytes ++ post)) (long : 16 ≤ b.length) : indexOf lobj b = some p := by
  rw [indexOf_padding (.inr (o.signature_append post)) p hb, if_pos (by omega)]

theorem kept_carry {os : List Object} {p : Nat} (hp : p ≤ limit) (good : ∀ o ∈ os, ok o)
    (bytes : p + (stream os).length ≤ total) (whole : buffer c st ++ future = zeros p ++ stream os)
    (messages : st.messages ++ decodeAll os st.counter = all) (unread : c ≠ [])
    (short : ∀ o ∈ os.head?, (buffer c st).length < p + o.size) (fits : (buffer c st).length < 2 ^ 31)
    (h : parseObject (buffer c st) st = (narrowInt (buffer c st).length, { st with remain := buffer c st })) :
    ∃ y, innerBody (c, st) = some (.next y) ∧ Kept ok limit total all future y ∧ rounds y < rounds (c, st) := by
  refine ⟨_, innerBody_carry unread fits h, ⟨p, os, hp, good, bytes, ?_, messages, short⟩, ?_⟩
  · rw [List.append_nil]
    exact whole
  · rw [rounds, if_pos rfl, rounds_unread unread]
    exact Nat.lt_add_right _ Nat.one_pos

theorem kept_record {o : Object} {os : List Object} {p skip : Nat} {rest : Bytes}
    (pads : ∀ o, ok o → o.padding ≤ limit)
    (good : ∀ o' ∈ o :: os, ok o') (bytes : p + (stream (o :: os)).length ≤ total)
    (split : buffer c st = zeros p ++ (o.bytes ++ rest)) (left : rest ++ future = zeros o.padding ++ stream os)
    (messages : st.messages ++ decodeAll (o :: os) st.counter = all) (unread : c ≠ [])
    (few : min skip rest.length ≤ o.padding)
    (h : parseObject (buffer c st) st = (((p + o.size + skip : Nat) : Int), o.record { st with remain := [] })) :
    ∃ y, innerBody (c, st) = some (.next y) ∧ Kept ok limit total all future y ∧ rounds y < rounds (c, st) := by
  have sixteen := o.sixteen_le_size
  have next : (buffer c st).drop (p + o.size + skip) = rest.drop skip := by
    rw [split, ← List.drop_drop, ← List.drop_drop, drop_zeros, Object.size, List.drop_left]
  refine ⟨_, innerBody_next unread h (by omega), ⟨o.padding - min skip rest.length, os, ?_, ?_, ?_, ?_, ?_, ?_⟩, ?_⟩
  · have := pads o (good o List.mem_cons_self)
    omega
  · exact fun o' ho' => good o' (List.mem_cons_of_mem _ ho')
  · rw [stream_cons, List.length_append, List.length_append, zeros_length] at bytes
    omega
  · rw [o.record_remain, List.nil_append, next]
    exact drop_padding left few
  · exact (record_decodeAll o os { st with remain := [] }).trans messages
  · intro o' _
    have := o'.sixteen_le_size
    rw [o.record_remain, List.length_nil]
    omega
  · have reaches : p + o.size ≤ (buffer c st).length := by
      rw [split, List.length_append, List.length_append, zeros_length, ← Nat.add_assoc]
      exact Nat.le_add_right _ _
    rw [rounds, rounds_unread unread, o.record_remain, List.length_drop, List.length_nil]
    split <;> omega

theorem innerBody_kept (pads : ∀ o, ok o → o.padding ≤ limit) (small : limit ≤ 3)
    (kept : Kept ok limit total all future (c, st)) (unread : c ≠ []) (safe : StepSafe (buffer c st)) :
    ∃ y, innerBody (c, st) = some (.next y) ∧ Kept ok limit total all future y ∧ rounds y < rounds (c, st) := by
  obtain ⟨p, os, hp, good, bytes, whole, messages, -⟩ := kept
  change st.remain ++ c ++ future = _ at whole
  rw [← buffer_eq] at whole
  cases os with
  | nil =>
    have padding := congrArg List.length whole
    rw [List.length_append, List.length_append, zeros_length, stream, List.flatMap_nil, List.length_nil] at padding
    exact kept_carry hp good bytes whole messages unread nofun (by omega) (parseObject_short (by omega) st)
  | cons o os =>
    have front : buffer c st <+: zeros p ++ (o.bytes ++ (zeros o.padding ++ stream os)) := by
      rw [← stream_cons]
      exact ⟨future, whole⟩
    have sixteen := o.sixteen_le_size
    by_cases short : (buffer c st).length < p + o.size
    · have fits : (buffer c st).length < 2 ^ 31 := by
        by_cases few : (buffer c st).length < 16
        · omega
        · apply (safe (by omega) p (indexOf_object (by omega) front (by omega))).1
          rw [objSizeAt_object (by omega) front (by omega)]
          exact short
      refine kept_carry hp good bytes whole messages unread ?_ fits (parseObject_incomplete (by omega) front short st)
      rintro _ ⟨⟩
      exact short
    · have bound := (safe (by omega) p (indexOf_object (by omega) front (by omega))).2
      rw [objSizeAt_object (by omega) front (by omega)] at bound
      obtain ⟨found, notFound⟩ := bound (by omega)
      obtain ⟨rest, split, left⟩ := split_object whole (by omega)
      have next : (buffer c st).drop (p + o.size) = rest := by
        rw [split, ← List.drop_drop, drop_zeros, Object.size, List.drop_left]
      have parsed := parseObject_complete o (Nat.le_trans hp small) rest st
      have search := indexOf_padding (stream_signature os) o.padding (s := rest) ⟨future, left⟩
      rw [← split] at parsed
      rw [indexOfFrom, next] at found notFound
      by_cases reaches : o.padding + 4 ≤ rest.length
      · rw [if_pos reaches] at search
        rw [search] at parsed found
        simp only [narrowInt_small (found _ rfl)] at parsed
        exact kept_record pads good bytes split left messages unread (Nat.min_le_left _ _) parsed
      · rw [if_neg reaches] at search
        rw [search] at parsed notFound
        obtain ⟨fits, few⟩ := notFound rfl
        have behind : (buffer c st).length - (p + o.size) = rest.length := by rw [← List.length_drop, next]
        rw [behind] at few
        simp only [narrowInt_small fits] at parsed
        exact kept_record pads good bytes split left messages unread few parsed

/-! ### Runs -/

theorem innerLoop_kept (pads : ∀ o, ok o → o.padding ≤ limit) (small : limit ≤ 3) {fuel : Nat}
    (kept : Kept ok limit total all future (c, st)) (enough : 1 + st.remain.length + c.length < fuel)
    (safe : ∀ b ∈ calls fuel c st, StepSafe b) :
    ∃ st', innerLoop fuel c st = some st' ∧ Kept ok limit total all future ([], st') := by
  have round : ∀ x : Bytes × State, Kept ok limit total all future x → (x.1.length ≠ 0 → StepSafe (buffer x.1 x.2)) →
      (∃ y, innerBody x = some (.stop y) ∧ (Kept ok limit total all future y ∧ y.1 = [])) ∨
        ∃ y, innerBody x = some (.next y) ∧ Kept ok limit total all future y ∧ rounds y < rounds x := by
    rintro ⟨c, st⟩ kept safe
    by_cases unread : c = []
    · subst unread
      exact .inl ⟨([], st), rfl, kept, rfl⟩
    · exact .inr (innerBody_kept pads small kept unread (safe fun h => unread (List.length_eq_zero_iff.mp h)))
  have measure : rounds (c, st) < fuel := by
    rw [rounds]
    split
    · omega
    · exact enough
  obtain ⟨⟨c', st'⟩, ran, kept', ended⟩ := Loop.run_total rounds round fuel (c, st) kept measure fun x hx unread =>
    safe _ (List.mem_map.mpr ⟨x, List.mem_filter.mpr ⟨hx, decide_eq_true unread⟩, rfl⟩)
  change c' = [] at ended
  subst ended
  exact ⟨st', by rw [innerLoop, ran]; rfl, kept'⟩

theorem kept_next {cs : List Bytes} (kept : Kept ok limit total all (c :: cs).flatten ([], st)) :
    Kept ok limit total all cs.flatten (c, st) := by
  obtain ⟨p, os, hp, good, bytes, whole, rest⟩ := kept
  refine ⟨p, os, hp, good, bytes, ?_, rest⟩
  rw [← whole, List.append_nil, List.flatten_cons, List.append_assoc]

theorem kept_fits (kept : Kept ok limit total all future (c, st)) :
    st.remain.length + c.length ≤ total := by
  obtain ⟨p, os, -, -, bytes, whole, -⟩ := kept
  have := congrArg List.length whole
  rw [List.length_append, List.length_append, List.length_append, zeros_length] at this
  change st.remain.length + c.length + _ = _ at this
  omega

theorem feed_kept (pads : ∀ o, ok o → o.padding ≤ limit) (small : limit ≤ 3) {fuel : Nat}
    (enough : 1 + total < fuel) :
    ∀ (cs : List Bytes) (st : State), Kept ok limit total all cs.flatten ([], st) →
      (∀ b ∈ feedCalls fuel cs st, StepSafe b) → ∃ st', feed fuel cs st = some st' ∧ st'.messages = all := by
  intro cs
  induction cs with
  | nil =>
    rintro st ⟨p, os, -, -, -, whole, messages, short⟩ -
    refine ⟨st, rfl, ?_⟩
    cases os with
    | nil => rw [← messages, decodeAll, List.append_nil]
    | cons o os =>
      have carried := congrArg List.length whole
      have less := short o rfl
      rw [stream_cons, List.flatten_nil, List.append_nil, List.append_nil, List.length_append, List.length_append,
        zeros_length] at carried
      unfold Object.size at less
      omega
  | cons c cs ih =>
    intro st kept safe
    have fits := kept_fits (kept_next kept)
    obtain ⟨st', ran, kept⟩ := innerLoop_kept pads small (kept_next kept) (by omega) fun b hb =>
      safe b (List.mem_append_left _ hb)
    rw [feedCalls, ran] at safe
    rw [feed, ran]
    exact ih st' kept fun b hb => safe b (List.mem_append_right _ hb)

theorem kept_start {os : List Object} {cs : List Bytes} (good : ∀ o ∈ os, ok o)
    (cut : cs.flatten = stream os) : Kept ok limit (stream os).length (decodeAll os 0) cs.flatten ([], {}) := by
  refine ⟨0, os, Nat.zero_le _, good, by rw [Nat.zero_add], by rw [cut]; rfl, rfl, ?_⟩
  intro o _
  have := o.sixteen_le_size
  change 0 < 0 + o.size
  omega

theorem feed_messages {os : List Object} {cs : List Bytes} (cut : cs.flatten = stream os) {fuel : Nat}
    (enough : 1 + (stream os).length < fuel) (safe : ∀ b ∈ feedCalls fuel cs {}, StepSafe b) :
    ∃ st, feed fuel cs {} = some st ∧ st.messages = decodeAll os 0 :=
  feed_kept (fun o _ => o.padding_le) (Nat.le_refl 3) enough cs {} (kept_start (fun _ _ => trivial) cut) safe

/-- Two cuts of a stream give the same messages when all their calls are safe. -/
theorem feed_cuts (os : List Object) (cs₁ cs₂ : List Bytes) (cut₁ : cs₁.flatten = stream os)
    (cut₂ : cs₂.flatten = stream os) (fuel : Nat) (enough : 1 + (stream os).length < fuel)
    (safe₁ : ∀ b ∈ feedCalls fuel cs₁ {}, StepSafe b) (safe₂ : ∀ b ∈ feedCalls fuel cs₂ {}, StepSafe b) :
    ∃ st₁ st₂, feed fuel cs₁ {} = some st₁ ∧ feed fuel cs₂ {} = some st₂ ∧ st₁.messages = st₂.messages := by
  obtain ⟨st₁, ran₁, messages₁⟩ := feed_messages cut₁ enough safe₁
  obtain ⟨st₂, ran₂, messages₂⟩ := feed_messages cut₂ enough safe₂
  exact ⟨st₁, st₂, ran₁, ran₂, messages₁.trans messages₂.symm⟩

def textObject : Object where
  bytes := lobj ++ [16, 0, 1, 0, 17, 0, 0, 0, 65, 0, 0, 0, 120]
  signature := by decide
  sizeStated := by decide
  headerFits := by decide
  fieldsFit := by decide

def canObject : Object where
  bytes := lobj ++ [32, 0, 1, 0, 48, 0, 0, 0, 1, 0, 0, 0, 2, 0, 0, 0, 0, 0, 0, 0, 5, 0, 0, 0, 0, 0, 0, 0, 1, 0, 0, 1,
    3, 0, 0, 0, 255, 0, 0, 0, 0, 0, 0, 0]
  signature := by decide
  sizeStated := by decide
  headerFits := by decide
  fieldsFit := by decide

theorem feed_cuts_inHeader :
    ∃ st₁ st₂, feed 100 [textObject.bytes ++ [0] ++ canObject.bytes] {} = some st₁ ∧
      feed 100 [textObject.bytes ++ [0] ++ canObject.bytes.take 10, canObject.bytes.drop 10] {} = some st₂ ∧
      st₁.messages = st₂.messages :=
  feed_cuts [textObject, canObject] [textObject.bytes ++ [0] ++ canObject.bytes]
    [textObject.bytes ++ [0] ++ canObject.bytes.take 10, canObject.bytes.drop 10] (by decide) (by decide) 100
    (by decide) (by decide +kernel) (by decide +kernel)

/-- The padding of the text object begins the second container, and the object behind it ends one
byte before the cut: that byte, the first of a signature, is skipped and the last object is lost. -/
theorem feed_cuts_beforePadding :
    ¬ ∀ (os : List Object) (cs₁ cs₂ : List Bytes) (fuel : Nat),
      (∀ o ∈ os, indexOf lobj (o.bytes.drop 1 ++ zeros o.padding) = none) →
      cs₁.flatten = stream os → cs₂.flatten = stream os → (∀ c ∈ cs₁, c ≠ []) → (∀ c ∈ cs₂, c ≠ []) →
      1 + (stream os).length < fuel → ∃ st₁ st₂, feed fuel cs₁ {} = some st₁ ∧ feed fuel cs₂ {} = some st₂ ∧
        st₁.messages = st₂.messages := by
  intro h
  obtain ⟨st₁, st₂, ran₁, ran₂, same⟩ := h [textObject, canObject, canObject]
    [stream [textObject, canObject, canObject]]
    [textObject.bytes, [0] ++ canObject.bytes ++ canObject.bytes.take 1, canObject.bytes.drop 1] 200
    (by decide) (by decide) (by decide) (by decide) (by decide) (by decide)
  have two : (feed 200 [stream [textObject, canObject, canObject]] {}).map (·.messages.length) = some 2 := by
    decide +kernel
  have one : (feed 200 [textObject.bytes, [0] ++ canObject.bytes ++ canObject.bytes.take 1,
      canObject.bytes.drop 1] {}).map (·.messages.length) = some 1 := by
    decide +kernel
  rw [ran₁, Option.map_some, same] at two
  rw [ran₂, Option.map_some, two] at one
  exact absurd one (by decide)

end CanTracer.Blf
