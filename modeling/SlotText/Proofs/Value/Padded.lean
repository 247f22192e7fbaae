import SlotText.Proofs.Number.Signed
import SlotText.Proofs.Value.Layout

/-!
# Filling up to a width

At some width a value is laid out as at width zero, with as many characters put in as are missing.
There are two ways to do so. A finite number with the zero flag takes zeros in front of its digits,
behind its sign and the mark of its base, unless it is an ordinal. Everything else takes copies of
the fill around it, divided as the alignment says. A value goes one of these ways and never both,
and nothing of it is cut off.
-/
namespace SlotText

/-- How many characters of a deficit go before the text. -/
def Alignment.before (a : Alignment) (deficit : Nat) : Nat :=
  match a with
  | left => 0
  | center => deficit / 2
  | right => deficit

theorem Alignment.before_le (a : Alignment) (deficit : Nat) : a.before deficit ≤ deficit := by
  cases a with
  | left => exact Nat.zero_le _
  | center => exact Nat.div_le_self _ _
  | right => exact Nat.le_refl _

/-- Zeros in front of the digits fill the value up, and not copies of the fill around it. -/
structure Specifier.ZeroFills (spec : Specifier) (v : Value) : Prop where
  zeroPad : spec.zeroPad = true
  ne_inspection : spec.conversion ≠ .inspection
  ne_ordinal : spec.conversion.isOrdinal = false
  number : ∃ n, v.number? = some n ∧ n.isFinite = true

/-- The mark in front of the digits, if the pretty flag asks for it. -/
def Specifier.mark (spec : Specifier) : Text :=
  if spec.pretty then spec.conversion.baseMark else []

variable {spec : Specifier}

namespace Text

/-- A text with copies of a fill around it, divided as an alignment says. -/
def filled (a : Alignment) (c : Char) (missing : Nat) (t : Text) : Text :=
  List.replicate (a.before missing) c ++ t ++ List.replicate (missing - a.before missing) c

/-- The second text is the first one, of a number, with zeros in front of its digits. -/
def ZeroFilled (spec : Specifier) (missing : Nat) (t r : Text) : Prop :=
  ∃ sign digits, (sign = ['-'] ∨ sign = spec.sign.text) ∧
    digits.Begins (Numeral.Digit spec.conversion.base) ∧ t = sign ++ spec.mark ++ digits ∧
    r = sign ++ spec.mark ++ List.replicate missing '0' ++ digits

theorem length_filled (a : Alignment) (c : Char) (missing : Nat) (t : Text) :
    (t.filled a c missing).length = t.length + missing := by
  have hle := a.before_le missing
  simp only [filled, List.length_append, List.length_replicate]
  omega

theorem filled_zero (a : Alignment) (c : Char) (t : Text) : t.filled a c 0 = t := by
  have hbefore : a.before 0 = 0 := Nat.le_zero.mp (a.before_le 0)
  rw [filled, hbefore]
  exact List.append_nil t

variable {missing : Nat} {t r : Text}

theorem ZeroFilled.length (h : ZeroFilled spec missing t r) : r.length = t.length + missing := by
  obtain ⟨sign, digits, -, -, rfl, rfl⟩ := h
  simp only [List.length_append, List.length_replicate]
  omega

theorem ZeroFilled.eq_of_zero (h : ZeroFilled spec 0 t r) : r = t := by
  obtain ⟨sign, digits, -, -, rfl, rfl⟩ := h
  rw [List.replicate_zero, List.append_nil]

end Text

namespace Rendered

variable {r r' : Rendered} {width : Int} {a : Alignment} {fill : Text} {c : Char}

theorem eq_times_of_fillOf {n : Int} {s : Text} (h : fillOf fill n = .ok s) :
    s = fill.times n.toNat := by
  unfold fillOf at h
  split at h
  · cases h
  · split at h
    · cases h
    · cases h
      rfl

/-- Aligning puts copies of the fill on both sides, as many in all as are missing. -/
theorem eq_pad_of_align (h : r.align width a fill = .ok r') :
    r' = r.pad (fill.times (a.before (width - r.length).toNat))
      (fill.times ((width - r.length).toNat - a.before (width - r.length).toNat)) := by
  have hzero : fill.times 0 = [] := Text.times_eq fill 0
  unfold align at h
  dsimp only at h
  split at h
  · next hle =>
      have hnone : (width - r.length).toNat = 0 := by omega
      have hbefore : a.before 0 = 0 := Nat.le_zero.mp (a.before_le 0)
      cases h
      rw [hnone, hbefore, hzero, pad, List.append_nil, List.append_nil]
      rfl
  · next hlt =>
      generalize width - r.length = deficit at h hlt
      cases a with
      | left =>
          obtain ⟨right, hright, h⟩ := Outcome.bind_eq_ok.mp h
          cases h
          rw [Alignment.before, hzero, eq_times_of_fillOf hright]
          rfl
      | center =>
          obtain ⟨left, hleft, h⟩ := Outcome.bind_eq_ok.mp h
          obtain ⟨right, hright, h⟩ := Outcome.bind_eq_ok.mp h
          have hhalf : (deficit / 2).toNat = deficit.toNat / 2 := by omega
          have hrest : (deficit - deficit / 2).toNat = deficit.toNat - deficit.toNat / 2 := by omega
          cases h
          rw [Alignment.before, eq_times_of_fillOf hleft, eq_times_of_fillOf hright, hhalf, hrest]
      | right =>
          obtain ⟨left, hleft, h⟩ := Outcome.bind_eq_ok.mp h
          cases h
          rw [Alignment.before, Nat.sub_self, hzero, eq_times_of_fillOf hleft]

theorem plain_of_align {w : Nat} (h : r.align w a [c] = .ok r') :
    r'.plain = r.plain.filled a c (w - r.plain.length) := by
  have hdeficit : ((w : Int) - r.length).toNat = w - r.plain.length := by
    rw [length]
    omega
  rw [eq_pad_of_align h, hdeficit, pad, Text.times_singleton, Text.times_singleton]
  rfl

end Rendered

theorem Shaped.withFront_of_aligned (spec : Specifier) {finite : Bool}
    (h : (spec.zeroPad && (finite && !spec.conversion.isOrdinal)) = false) (s : Text) :
    withFront spec finite s = .ok ⟨front spec s ++ (sign spec s).2, false⟩ := by
  unfold withFront
  rw [h]
  split
  · rfl
  · rfl

theorem Shaped.withFront_of_zeroFilled (spec : Specifier) {finite : Bool} {w : Nat}
    (hw : spec.width = .given w) (hle : (w : Int) ≤ Text.longest)
    (h : (spec.zeroPad && (finite && !spec.conversion.isOrdinal)) = true) (s : Text) :
    withFront spec finite s =
      .ok ⟨front spec s ++ (sign spec s).2.leftpad (w - (front spec s).length) '0', true⟩ := by
  have hlength := length_front_le spec s
  have hcount : Text.count (w - (front spec s).length) = .ok (w - (front spec s).length) := by
    rw [Text.count_eq_toNat (by omega) (by omega)]
    congr 1
    omega
  simp only [withFront, hw, Amount.given?, h, if_true, hcount]
  rfl

/-- The sign of a number can be told from its digits. -/
theorem Shaped.exists_sign (spec : Specifier) {s : Text} {p : Char → Prop} (h : s.Signed p)
    (hp : ∀ c, p c → c ≠ '-') :
    ((sign spec s).1 = ['-'] ∨ (sign spec s).1 = spec.sign.text) ∧ (sign spec s).2.Begins p := by
  obtain ⟨negative, digits, rfl, hdigits⟩ := h
  cases negative with
  | true => exact ⟨.inl rfl, hdigits⟩
  | false =>
      cases digits with
      | nil => exact hdigits.elim
      | cons c digits =>
          have hsign : sign spec (c :: digits) = (spec.sign.text, c :: digits) := by
            unfold sign
            split
            · next h =>
                cases h
                exact absurd rfl (hp '-' hdigits)
            · rfl
          have hempty : Decimal.signText false ++ c :: digits = c :: digits := rfl
          rw [hempty, hsign]
          exact ⟨.inr rfl, hdigits⟩

namespace Value

variable {v : Value} {n : Number} {decorate : Bool}

theorem layOut_inspection (spec : Specifier) (hk : spec.conversion = .inspection) (v : Value)
    (decorate : Bool) :
    v.layOut spec decorate =
      (v.inspect spec.pretty decorate).align spec.targetWidth spec.alignment spec.fill := by
  have heffective : spec.effective =
      { spec with sign := .nothing, zeroPad := false, precision := .absent } := if_pos hk
  have hconvert : v.convert spec.effective decorate = .ok (v.inspect spec.pretty decorate) := by
    rw [heffective]
    exact if_pos hk
  rw [layOut, hconvert, Outcome.ok_bind, heffective]
  simp only [hk, ne_eq, not_true_eq_false, decide_false, Bool.and_false, Bool.false_eq_true,
    if_false]
  rfl

theorem layOut_of_number?_eq_none (spec : Specifier) (hk : spec.conversion ≠ .inspection)
    (hv : v.number? = .none) :
    v.layOut spec decorate =
      (v.plain >>= fun s => (Rendered.of s).align spec.targetWidth spec.alignment spec.fill) := by
  have heffective : spec.effective = spec := if_neg hk
  have hconvert : v.convert spec decorate = v.plain.map .of := by
    rw [convert, if_neg hk]
    simp only [hv]
  have hnumeric : v.isNumeric = false := by rw [isNumeric, hv, Option.isSome_none]
  rw [layOut, heffective, hconvert]
  simp only [hnumeric, Bool.false_and, Bool.false_eq_true, if_false]
  cases v.plain with
  | error e => rfl
  | ok s => rfl

/-- The text of a number with its digits behind the point. -/
def numberText (v : Value) (n : Number) (spec : Specifier) : Outcome Text :=
  (if n.isFinite then n.convert spec.conversion (spec.precision ≠ .absent) else v.plain) >>=
    Shaped.withDigits spec n.isFinite

theorem layOut_of_number?_eq_some (spec : Specifier) (hk : spec.conversion ≠ .inspection)
    (hn : v.number? = some n) :
    v.layOut spec decorate = (v.numberText n spec >>= fun s => do
      let shaped ← Shaped.withFront spec n.isFinite s
      if shaped.zeroPadded then return .of shaped.text
      (Rendered.of shaped.text).align spec.targetWidth spec.alignment spec.fill) := by
  have heffective : spec.effective = spec := if_neg hk
  have hconvert : v.convert spec decorate =
      (if n.isFinite then n.convert spec.conversion (spec.precision ≠ .absent) else v.plain).map
        .of := by
    rw [convert, if_neg hk]
    simp only [hn]
    split
    · rfl
    · rfl
  have hfinite : v.isFinite = n.isFinite := by rw [isFinite, hn, Option.all_some]
  have hnumeric : (v.isNumeric && decide (spec.conversion ≠ .inspection)) = true := by
    rw [isNumeric, hn, Option.isSome_some, decide_eq_true hk]
    rfl
  rw [layOut, heffective, hconvert, numberText]
  simp only [hnumeric, hfinite, if_true, Shaped.of_eq, bind_assoc]
  generalize (if n.isFinite = true then n.convert spec.conversion (spec.precision ≠ .absent)
    else v.plain) = o
  cases o with
  | error e => rfl
  | ok s => rfl

theorem signed_of_numberText (spec : Specifier) (hn : n.isFinite = true) {s : Text}
    (h : v.numberText n spec = .ok s) : s.Signed (Numeral.Digit spec.conversion.base) := by
  rw [numberText, if_pos hn] at h
  obtain ⟨s', hs', h⟩ := Outcome.bind_eq_ok.mp h
  have hsigned := Number.signed_of_convert hn hs'
  unfold Shaped.withDigits at h
  split at h
  · split at h
    · refine hsigned.withPrecision (fun c hc => (hc.ne spec.conversion.base_le).2) ?_ h
      intro hscientific c hc
      rw [Conversion.base_of_isScientific hscientific] at hc
      exact hc.ne_marker
    · cases h
      exact hsigned
  · cases h
    exact hsigned

/-- Unless zeros fill it, a value is the same for all widths up to the alignment. -/
theorem exists_aligned (h : ¬spec.ZeroFills v) (q : Option Int) (decorate : Bool) :
    ∃ o : Outcome Rendered, ∀ width, v.layOut (spec.bind (some width) q) decorate =
      (o >>= fun t => t.align width spec.alignment spec.fill) := by
  by_cases hk : spec.conversion = .inspection
  · refine ⟨.ok (v.inspect spec.pretty decorate), fun width => ?_⟩
    exact layOut_inspection (spec.bind (some width) q) hk v decorate
  · cases hn : v.number? with
    | none =>
        refine ⟨v.plain.map .of, fun width => ?_⟩
        refine (layOut_of_number?_eq_none (spec.bind (some width) q) hk hn).trans ?_
        cases v.plain with
        | error e => rfl
        | ok s => rfl
    | some n =>
        have hzero : (spec.zeroPad && (n.isFinite && !spec.conversion.isOrdinal)) = false := by
          rw [Bool.eq_false_iff]
          intro htrue
          simp only [Bool.and_eq_true, Bool.not_eq_true'] at htrue
          exact h ⟨htrue.1, hk, htrue.2.2, n, hn, htrue.2.1⟩
        refine ⟨(v.numberText n (spec.bind (some 0) q)).map fun s =>
          .of (Shaped.front spec s ++ (Shaped.sign spec s).2), fun width => ?_⟩
        refine (layOut_of_number?_eq_some (spec.bind (some width) q) hk hn).trans ?_
        have htext : v.numberText n (spec.bind (some width) q) =
            v.numberText n (spec.bind (some 0) q) := rfl
        rw [htext]
        cases v.numberText n (spec.bind (some 0) q) with
        | error e => rfl
        | ok s =>
            have hfront := Shaped.withFront_of_aligned (spec.bind (some width) q) hzero s
            rw [Outcome.ok_bind, hfront]
            rfl

/-- A value that zeros fill has them between its sign and its digits, however it is aligned. -/
theorem exists_zeroFilled (h : spec.ZeroFills v) (q : Option Int) (decorate : Bool) :
    ∃ o : Outcome Text, (∀ s, o = .ok s → s.Signed (Numeral.Digit spec.conversion.base)) ∧
      ∀ (w : Nat) (a : Alignment) (fill : Text), (w : Int) ≤ Text.longest →
        v.layOut ({ spec with alignment := a, fill }.bind (some w) q) decorate = o.map fun s =>
          .of (Shaped.front spec s ++
            (Shaped.sign spec s).2.leftpad (w - (Shaped.front spec s).length) '0') := by
  obtain ⟨n, hn, hfinite⟩ := h.number
  have hzero : (spec.zeroPad && (n.isFinite && !spec.conversion.isOrdinal)) = true := by
    rw [h.zeroPad, hfinite, h.ne_ordinal]
    rfl
  refine ⟨v.numberText n (spec.bind (some 0) q), ?_, ?_⟩
  · intro s hs
    exact signed_of_numberText (spec.bind (some 0) q) hfinite hs
  · intro w a fill hw
    let bound := { spec with alignment := a, fill }.bind (some (w : Int)) q
    refine (layOut_of_number?_eq_some bound h.ne_inspection hn).trans ?_
    have htext : v.numberText n bound = v.numberText n (spec.bind (some 0) q) := rfl
    rw [htext]
    cases v.numberText n (spec.bind (some 0) q) with
    | error e => rfl
    | ok s =>
        rw [Outcome.ok_bind, Shaped.withFront_of_zeroFilled bound rfl hw hzero]
        rfl

/-- A value that zeros fill is a sign, the mark of the base and digits at every width. -/
theorem zeroFilled_leftpad {s : Text} (hs : s.Signed (Numeral.Digit spec.conversion.base))
    (w : Nat) :
    Text.ZeroFilled spec (w - (Shaped.front spec s ++ (Shaped.sign spec s).2).length)
      (Shaped.front spec s ++ (Shaped.sign spec s).2)
      (Shaped.front spec s ++
        (Shaped.sign spec s).2.leftpad (w - (Shaped.front spec s).length) '0') := by
  obtain ⟨hsign, hdigits⟩ := Shaped.exists_sign spec hs fun c hc =>
    (hc.ne spec.conversion.base_le).1
  refine ⟨(Shaped.sign spec s).1, (Shaped.sign spec s).2, hsign, hdigits, rfl, ?_⟩
  rw [List.leftpad, List.length_append, Nat.sub_sub, List.append_assoc _ (List.replicate _ _)]
  rfl

/-- A value is laid out as at width zero and then filled up, in one of the two ways. -/
theorem layOut_eq_filled {c : Char} (hfill : spec.fill = [c]) {w : Nat}
    (hw : (w : Int) ≤ Text.longest) (v : Value) (q : Option Int) (decorate : Bool) :
    (∀ e, v.layOut (spec.bind (some w) q) decorate = .error e ↔
      v.layOut (spec.bind (some 0) q) decorate = .error e) ∧
    ∀ r, v.layOut (spec.bind (some w) q) decorate = .ok r →
      ∃ t, v.layOut (spec.bind (some 0) q) decorate = .ok t ∧
        r.plain.length = max w t.plain.length ∧ (w ≤ t.plain.length → r.plain = t.plain) ∧
        (spec.ZeroFills v → Text.ZeroFilled spec (w - t.plain.length) t.plain r.plain ∧
          ∀ a fill, v.layOut ({ spec with alignment := a, fill }.bind (some w) q) decorate =
            .ok r) ∧
        (¬spec.ZeroFills v →
          r.plain = t.plain.filled spec.alignment c (w - t.plain.length)) := by
  have hlength : ∀ n : Nat, n + (w - n) = max w n := by omega
  by_cases hz : spec.ZeroFills v
  · obtain ⟨o, hsigned, ho⟩ := exists_zeroFilled hz q decorate
    have hzero : v.layOut (spec.bind (some 0) q) decorate = _ :=
      ho 0 spec.alignment spec.fill (by decide)
    have hwidth : v.layOut (spec.bind (some w) q) decorate = _ :=
      ho w spec.alignment spec.fill hw
    rw [hzero, hwidth]
    constructor
    · intro e
      rw [Outcome.map_eq_error_iff, Outcome.map_eq_error_iff]
    · intro r hr
      obtain ⟨s, hs, rfl⟩ := Outcome.map_eq_ok.mp hr
      have hfilled := zeroFilled_leftpad (hsigned s hs) w
      have hpad : (Shaped.sign spec s).2.leftpad (0 - (Shaped.front spec s).length) '0' =
          (Shaped.sign spec s).2 := by
        rw [Nat.zero_sub, List.leftpad, Nat.zero_sub]
        rfl
      refine ⟨.of (Shaped.front spec s ++ (Shaped.sign spec s).2), ?_, ?_, ?_,
        fun _ => ⟨hfilled, ?_⟩, fun h => absurd hz h⟩
      · rw [hs, ← hpad]
        rfl
      · exact hfilled.length.trans (hlength _)
      · intro hle
        dsimp only [Rendered.of] at hle ⊢
        rw [Nat.sub_eq_zero_of_le hle] at hfilled
        exact hfilled.eq_of_zero
      · intro a fill
        rw [ho w a fill hw, hs]
        rfl
  · obtain ⟨o, ho⟩ := exists_aligned hz q decorate
    rw [ho, ho, hfill]
    have halign : ∀ {width : Int}, width ≤ Text.longest → ∀ t : Rendered,
        ∃ r, t.align width spec.alignment [c] = .ok r := by
      intro width hle t
      exact t.exists_align hle spec.alignment c
    constructor
    · intro e
      rw [Outcome.bind_eq_error_iff (halign hw), Outcome.bind_eq_error_iff (halign (by decide))]
    · intro r hr
      obtain ⟨t, ht, hr⟩ := Outcome.bind_eq_ok.mp hr
      have hfilled := Rendered.plain_of_align hr
      refine ⟨t, ?_, ?_, ?_, fun h => absurd h hz, fun _ => hfilled⟩
      · rw [ht, Outcome.ok_bind]
        exact Rendered.align_of_le (Int.natCast_nonneg _) _ _
      · rw [hfilled, Text.length_filled, hlength]
      · intro hle
        rw [hfilled, Nat.sub_eq_zero_of_le hle, Text.filled_zero]

/-- Three zeros stand between the mark of the base and the digits, and no fill is added. -/
theorem layOut_filled_hex :
    let spec : Specifier :=
      { fill := ['*'], alignment := .center, pretty := true, zeroPad := true,
        conversion := .hexUpper }
    spec.ZeroFills (.int (-255)) ∧
      (Value.int (-255)).layOut (spec.bind (some 8) .none) false =
        .ok (.of "-0x000FF".toList) ∧
      Text.ZeroFilled spec 3 "-0xFF".toList "-0x000FF".toList := by
  intro spec
  have hz : spec.ZeroFills (.int (-255)) := ⟨rfl, by decide, rfl, .int (-255), rfl, rfl⟩
  have hr : (Value.int (-255)).layOut (spec.bind (some (8 : Nat)) .none) false =
      .ok (.of "-0x000FF".toList) := rfl
  have ht : (Value.int (-255)).layOut (spec.bind (some 0) .none) false =
      .ok (.of "-0xFF".toList) := by decide +kernel
  have hfill : spec.fill = ['*'] := rfl
  have hwidth : ((8 : Nat) : Int) ≤ Text.longest := by decide
  have hfilled := layOut_eq_filled hfill hwidth (.int (-255)) .none false
  obtain ⟨t, ht', -, -, hzeros, -⟩ := hfilled.2 _ hr
  cases ht.symm.trans ht'
  exact ⟨hz, hr, (hzeros hz).1⟩

end Value

end SlotText
