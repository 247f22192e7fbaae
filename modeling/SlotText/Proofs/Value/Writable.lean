import SlotText.Value.Text
import SlotText.Proofs.Numeral.Decimal
import SlotText.Proofs.Outcome

/-!
# Values that can be written

Two things keep a value from having a text: a whole number somewhere in it that has too many
digits, and a formatted text somewhere in it that does not render. A value without either has
both of its texts, whatever it is built from, and a value with one of them is never shown.
-/
namespace SlotText.Value

mutual

/-- Every whole number in the value can be written out, and every formatted text in it renders. -/
def Writable : Value → Prop
  | int n => n.natAbs < Nat.pow 10 Numeral.longest
  | fraction n d => n.natAbs < Nat.pow 10 Numeral.longest ∧ d < Nat.pow 10 Numeral.longest
  | list xs => WritableAll xs
  | tuple xs => WritableAll xs
  | dict es => WritableEntries es
  | set xs => WritableAll xs
  | frozenSet xs => WritableAll xs
  | record _ fields => WritableFields fields
  | ref target => Writable target
  | formatted plain _ => ∃ s, plain = .ok s
  | none => True
  | bool _ => True
  | float _ => True
  | decimal _ => True
  | complex _ _ => True
  | bytes _ => True
  | text _ => True

def WritableAll : List Value → Prop
  | [] => True
  | v :: vs => Writable v ∧ WritableAll vs

def WritableEntries : List (Value × Value) → Prop
  | [] => True
  | (k, v) :: es => Writable k ∧ Writable v ∧ WritableEntries es

def WritableFields : List (Text × Value) → Prop
  | [] => True
  | (_, v) :: fs => Writable v ∧ WritableFields fs

end

theorem exists_fractionText {n : Int} {d : Nat} (hn : n.natAbs < Nat.pow 10 Numeral.longest)
    (hd : d < Nat.pow 10 Numeral.longest) : ∃ s, fractionText n d = .ok s := by
  rw [fractionText, Numeral.write_eq_ok hn, Numeral.write_eq_ok (n := (d : Int)) hd]
  exact ⟨_, rfl⟩

mutual

theorem exists_shown : (v : Value) → v.Writable → ∃ s, v.shown = .ok s
  | int n, h => ⟨_, Numeral.write_eq_ok h⟩
  | fraction n d, h => exists_fractionText h.1 h.2
  | list xs, h => by
      obtain ⟨ss, hs⟩ := exists_shownAll xs h
      rw [shown, hs]
      exact ⟨_, rfl⟩
  | tuple xs, h => by
      obtain ⟨ss, hs⟩ := exists_shownAll xs h
      rw [shown, hs]
      exact ⟨_, rfl⟩
  | dict es, h => by
      obtain ⟨ss, hs⟩ := exists_shownEntries es h
      rw [shown, hs]
      exact ⟨_, rfl⟩
  | set xs, h => by
      obtain ⟨ss, hs⟩ := exists_shownAll xs h
      rw [shown, hs]
      exact ⟨_, rfl⟩
  | frozenSet xs, h => by
      obtain ⟨ss, hs⟩ := exists_shownAll xs h
      rw [shown, hs]
      exact ⟨_, rfl⟩
  | record name fields, h => by
      obtain ⟨ss, hs⟩ := exists_shownFields fields h
      rw [shown, hs]
      exact ⟨_, rfl⟩
  | ref target, h => by
      obtain ⟨s, hs⟩ := exists_shown target h
      rw [shown, hs]
      exact ⟨_, rfl⟩
  | formatted plain decorated, h => by
      obtain ⟨s, hs⟩ := h
      rw [shown, hs]
      exact ⟨_, rfl⟩
  | none, _ => ⟨_, rfl⟩
  | bool _, _ => ⟨_, rfl⟩
  | float _, _ => ⟨_, rfl⟩
  | decimal _, _ => ⟨_, rfl⟩
  | complex _ _, _ => ⟨_, rfl⟩
  | bytes _, _ => ⟨_, rfl⟩
  | text _, _ => ⟨_, rfl⟩

theorem exists_shownAll : (vs : List Value) → WritableAll vs → ∃ ss, shownAll vs = .ok ss
  | [], _ => ⟨[], rfl⟩
  | v :: vs, h => by
      obtain ⟨s, hs⟩ := exists_shown v h.1
      obtain ⟨ss, hss⟩ := exists_shownAll vs h.2
      rw [shownAll, hs, hss]
      exact ⟨_, rfl⟩

theorem exists_shownEntries : (es : List (Value × Value)) → WritableEntries es →
    ∃ ss, shownEntries es = .ok ss
  | [], _ => ⟨[], rfl⟩
  | (k, v) :: es, h => by
      obtain ⟨key, hkey⟩ := exists_shown k h.1
      obtain ⟨s, hs⟩ := exists_shown v h.2.1
      obtain ⟨ss, hss⟩ := exists_shownEntries es h.2.2
      rw [shownEntries, hkey, hs, hss]
      exact ⟨_, rfl⟩

theorem exists_shownFields : (fs : List (Text × Value)) → WritableFields fs →
    ∃ ss, shownFields fs = .ok ss
  | [], _ => ⟨[], rfl⟩
  | (name, v) :: fs, h => by
      obtain ⟨s, hs⟩ := exists_shown v h.1
      obtain ⟨ss, hss⟩ := exists_shownFields fs h.2
      rw [shownFields, hs, hss]
      exact ⟨_, rfl⟩

end

theorem of_fractionText {n : Int} {d : Nat} {s : Text} (h : fractionText n d = .ok s) :
    n.natAbs < Nat.pow 10 Numeral.longest ∧ d < Nat.pow 10 Numeral.longest := by
  obtain ⟨top, htop, h⟩ := Outcome.bind_eq_ok.mp h
  obtain ⟨bottom, hbottom, -⟩ := Outcome.bind_eq_ok.mp h
  exact ⟨Numeral.lt_of_write htop, Numeral.lt_of_write hbottom⟩

mutual

/-- A value that has been shown holds nothing that keeps it from being written. -/
theorem writable_of_shown : (v : Value) → (s : Text) → v.shown = .ok s → v.Writable
  | int n, _, h => Numeral.lt_of_write h
  | fraction n d, _, h => of_fractionText h
  | list xs, _, h => by
      rw [shown] at h
      obtain ⟨ss, hs, -⟩ := Outcome.bind_eq_ok.mp h
      exact writable_of_shownAll xs ss hs
  | tuple xs, _, h => by
      rw [shown] at h
      obtain ⟨ss, hs, -⟩ := Outcome.bind_eq_ok.mp h
      exact writable_of_shownAll xs ss hs
  | dict es, _, h => by
      rw [shown] at h
      obtain ⟨ss, hs, -⟩ := Outcome.bind_eq_ok.mp h
      exact writable_of_shownEntries es ss hs
  | set xs, _, h => by
      rw [shown] at h
      obtain ⟨ss, hs, -⟩ := Outcome.bind_eq_ok.mp h
      exact writable_of_shownAll xs ss hs
  | frozenSet xs, _, h => by
      rw [shown] at h
      obtain ⟨ss, hs, -⟩ := Outcome.bind_eq_ok.mp h
      exact writable_of_shownAll xs ss hs
  | record name fields, _, h => by
      rw [shown] at h
      obtain ⟨ss, hs, -⟩ := Outcome.bind_eq_ok.mp h
      exact writable_of_shownFields fields ss hs
  | ref target, _, h => by
      rw [shown] at h
      obtain ⟨s, hs, -⟩ := Outcome.bind_eq_ok.mp h
      exact writable_of_shown target s hs
  | formatted plain decorated, _, h => by
      rw [shown] at h
      obtain ⟨s, hs, -⟩ := Outcome.bind_eq_ok.mp h
      exact ⟨s, hs⟩
  | none, _, _ => trivial
  | bool _, _, _ => trivial
  | float _, _, _ => trivial
  | decimal _, _, _ => trivial
  | complex _ _, _, _ => trivial
  | bytes _, _, _ => trivial
  | text _, _, _ => trivial

theorem writable_of_shownAll : (vs : List Value) → (ss : List Text) → shownAll vs = .ok ss →
    WritableAll vs
  | [], _, _ => trivial
  | v :: vs, _, h => by
      rw [shownAll] at h
      obtain ⟨s, hs, h⟩ := Outcome.bind_eq_ok.mp h
      obtain ⟨ss, hss, -⟩ := Outcome.bind_eq_ok.mp h
      exact ⟨writable_of_shown v s hs, writable_of_shownAll vs ss hss⟩

theorem writable_of_shownEntries : (es : List (Value × Value)) → (ss : List Text) →
    shownEntries es = .ok ss → WritableEntries es
  | [], _, _ => trivial
  | (k, v) :: es, _, h => by
      rw [shownEntries] at h
      obtain ⟨key, hkey, h⟩ := Outcome.bind_eq_ok.mp h
      obtain ⟨s, hs, h⟩ := Outcome.bind_eq_ok.mp h
      obtain ⟨ss, hss, -⟩ := Outcome.bind_eq_ok.mp h
      exact ⟨writable_of_shown k key hkey, writable_of_shown v s hs,
        writable_of_shownEntries es ss hss⟩

theorem writable_of_shownFields : (fs : List (Text × Value)) → (ss : List Text) →
    shownFields fs = .ok ss → WritableFields fs
  | [], _, _ => trivial
  | (_, v) :: fs, _, h => by
      rw [shownFields] at h
      obtain ⟨s, hs, h⟩ := Outcome.bind_eq_ok.mp h
      obtain ⟨ss, hss, -⟩ := Outcome.bind_eq_ok.mp h
      exact ⟨writable_of_shown v s hs, writable_of_shownFields fs ss hss⟩

end

theorem shown_eq_error_of_not_writable {v : Value} (h : ¬v.Writable) :
    ∃ e, v.shown = .error e := by
  cases hs : v.shown with
  | error e => exact ⟨e, rfl⟩
  | ok s => exact absurd (writable_of_shown v s hs) h

theorem exists_plain {v : Value} (h : v.Writable) : ∃ s, v.plain = .ok s := by
  cases v with
  | text s => exact ⟨s, rfl⟩
  | decimal d => exact ⟨d.text, rfl⟩
  | fraction n d =>
      obtain ⟨hn, hd⟩ := h
      rw [plain, Numeral.write_eq_ok hn, Outcome.ok_bind]
      split
      · exact ⟨_, rfl⟩
      · rw [Numeral.write_eq_ok (n := (d : Int)) hd]
        exact ⟨_, rfl⟩
  | formatted p _ => exact h
  | _ => exact exists_shown _ h

end SlotText.Value
