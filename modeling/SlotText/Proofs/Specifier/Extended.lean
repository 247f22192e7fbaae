import SlotText.Proofs.Template.Groups
import Mathlib.Data.List.ModifyLast

/-!
# Text behind a specifier

A specifier that ends with a blank or a semicolon is not changed by text appended to its last
literal: the text becomes a part of the tail. The rules of the grammar look at the first characters
that lie ahead, so a rule goes on to hold when text is appended to what lies ahead, unless nothing
lay ahead before. There is one exception. Whether there is an alignment depends on the second
character as well, and that may be the first one of the text appended.
-/
namespace SlotText

namespace Text

variable {p : Char → Prop} {s t : Text}

theorem not_begins_append (hs : ¬s.Begins p) (ht : s = [] → ¬t.Begins p) :
    ¬Begins p (s ++ t) := by
  intro h
  rcases begins_append_iff.mp h with h | ⟨hnil, h⟩
  · exact hs h
  · exact ht hnil h

theorem not_begins_tail_append (hs : ¬Begins p s.tail) (ht : ¬t.Begins p)
    (hnil : s = [] → ¬Begins p t.tail) : ¬Begins p (s ++ t).tail := by
  cases s with
  | nil => exact hnil rfl
  | cons c s => exact not_begins_append hs fun _ => ht

end Text

namespace Grammar

variable {g : Parts} {spec : Specifier} {a b : Ahead} {m : Amount} {following : List Text}
variable {part ds rest r s z tail : Text}

theorem Aligned.append {fill : Text} {al : Alignment} (h : Aligned part fill al rest)
    (hs : ¬s.Begins IsAlignment) (hnil : rest = [] → ¬Text.Begins IsAlignment s.tail) :
    Aligned part fill al (rest ++ s) := by
  cases h with
  | filled c al rest => exact .filled c al (rest ++ s)
  | bare al hn => exact .bare al (Text.not_begins_append hn fun _ => hs)
  | absent hn ht =>
      exact .absent (Text.not_begins_append hn fun _ => hs) (Text.not_begins_tail_append ht hs hnil)

theorem Signed.append {p : SignPolicy} (h : Signed part p rest)
    (hnil : rest = [] → ¬s.Begins IsSign) : Signed part p (rest ++ s) := by
  cases h with
  | plus rest => exact .plus (rest ++ s)
  | blank rest => exact .blank (rest ++ s)
  | absent hn => exact .absent (Text.not_begins_append hn hnil)

theorem Flagged.append {flag : Char} {f : Bool} (h : Flagged flag part f rest)
    (hnil : part = [] → rest = [] → ¬s.Begins (· = flag)) : Flagged flag part f (rest ++ s) := by
  cases h with
  | present rest => exact .present (rest ++ s)
  | absent hn => exact .absent (Text.not_begins_append hn (hnil rfl))

/-- The parts up to the pretty flag are read from a literal that goes on with `z`. -/
structure Opened (g : Parts) (spec : Specifier) (z : Text) : Prop where
  aligned : Aligned g.alignment spec.fill spec.alignment (g.sign ++ (g.pretty ++ z))
  signed : Signed g.sign spec.sign (g.pretty ++ z)
  pretty : Flagged '#' g.pretty spec.pretty z

/-- A text that does not continue these parts where they stand at the very end of a literal. -/
structure Fresh (s : Text) : Prop where
  sign : ¬s.Begins IsSign
  pretty : ¬s.Begins (· = '#')
  tail : ¬Text.Begins IsAlignment s.tail

theorem Opened.append (h : Opened g spec z) (hs : ¬s.Begins IsAlignment)
    (hnil : z = [] → Fresh s) : Opened g spec (z ++ s) := by
  have hright : ∀ {x y : Text}, x ++ y = [] → y = [] := fun h => (List.append_eq_nil_iff.mp h).2
  refine ⟨?_, ?_, h.pretty.append fun _ hz => (hnil hz).pretty⟩
  · have haligned := h.aligned.append hs fun hz => (hnil (hright (hright hz))).tail
    simpa only [List.append_assoc] using haligned
  · have hsigned := h.signed.append fun hz => (hnil (hright hz)).sign
    simpa only [List.append_assoc] using hsigned

theorem Lettered.append {k : Conversion} (h : Lettered part k rest) (hrest : rest ≠ []) :
    Lettered part k (rest ++ s) := by
  cases h with
  | letter rest hk => exact .letter (rest ++ s) hk
  | absent hn => exact .absent (Text.not_begins_append hn fun hnil => absurd hnil hrest)

theorem Closed.append (h : Closed part tail) (hne : part ++ tail ≠ []) :
    Closed part (tail ++ s) := by
  cases h with
  | finish => exact absurd rfl hne
  | blank rest hb => exact .blank (rest ++ s) hb
  | semicolon tail => exact .semicolon (tail ++ s)

/-- Text appended to the last literal that lies ahead. -/
def Ahead.extend (a : Ahead) (s : Text) : Ahead :=
  if a.literals = [] then ⟨a.text ++ s, []⟩ else ⟨a.text, a.literals.modifyLast (· ++ s)⟩

theorem Ahead.extend_nil (text s : Text) : (⟨text, []⟩ : Ahead).extend s = ⟨text ++ s, []⟩ := rfl

theorem Ahead.extend_cons (text s : Text) (literal : Text) (literals : List Text) :
    (⟨text, literal :: literals⟩ : Ahead).extend s =
      ⟨text, (literal :: literals).modifyLast (· ++ s)⟩ := rfl

theorem modifyLast_cons_cons {α : Type} (f : α → α) (x y : α) (l : List α) :
    (x :: y :: l).modifyLast f = x :: (y :: l).modifyLast f :=
  List.modifyLast_append_of_right_ne_nil f [x] (y :: l) (List.cons_ne_nil y l)

theorem Ahead.modifyLast_eq (text s : Text) (literals : List Text) :
    (text :: literals).modifyLast (· ++ s) =
      ((⟨text, literals⟩ : Ahead).extend s).text ::
        ((⟨text, literals⟩ : Ahead).extend s).literals := by
  cases literals with
  | nil => rfl
  | cons literal literals => exact modifyLast_cons_cons _ _ _ _

/-- Something is left to read, in the same literal or in another one. -/
def Ahead.Continues (a : Ahead) : Prop := a.text ≠ [] ∨ a.literals ≠ []

theorem Measured.extend (h : Measured a ds m b) (hb : b.Continues) (s : Text) :
    Measured (a.extend s) ds m (b.extend s) := by
  cases h with
  | @digits ds rest literals hne hds hrest =>
      cases literals with
      | nil =>
          have hne' : rest ≠ [] := hb.resolve_right fun h => h rfl
          rw [Ahead.extend_nil, Ahead.extend_nil, List.append_assoc]
          exact .digits hne hds (Text.not_begins_append hrest fun h => absurd h hne')
      | cons literal literals => exact .digits hne hds hrest
  | @zero c rest literals hc =>
      cases literals with
      | nil => exact .zero hc
      | cons literal literals => exact .zero hc
  | deferred literal literals =>
      rw [Ahead.extend_cons, Ahead.modifyLast_eq]
      exact .deferred _ _

theorem Pointed.extend (h : Pointed a part m b) (hb : b.Continues) (s : Text) :
    Pointed (a.extend s) part m (b.extend s) := by
  cases h with
  | absent hn =>
      apply Pointed.absent
      unfold Ahead.extend
      split
      · next hl =>
          have hne := hb.resolve_right fun h => h hl
          exact Text.not_begins_append hn fun h => absurd h hne
      · exact hn
  | @point rest ds literals m b hm =>
      have hmeasured := hm.extend hb s
      cases literals with
      | nil => exact .point hmeasured
      | cons literal literals => exact .point hmeasured

theorem Pointed.continues (h : Pointed a part m b) (hb : b.Continues) : a.Continues := by
  cases h with
  | absent _ => exact hb
  | point _ => exact .inl (List.cons_ne_nil _ _)

theorem Measured.ne_nil (h : Measured ⟨r, []⟩ ds m b) : r ≠ [] := by
  cases h with
  | digits hne _ _ => exact List.append_ne_nil_of_left_ne_nil hne _
  | zero _ => exact List.cons_ne_nil _ _

/-- A specifier that ends before its last literal does is read with the same meaning from its
literals with text appended to the last of them. -/
theorem Specified.extend (h : Specified (':' :: rest) following g spec tail [])
    (hend : g.close ++ tail ≠ []) (hs : ¬s.Begins IsAlignment) (hc : ¬rest.Begins (· = ':')) :
    ∃ rest' following', ((':' :: rest) :: following).modifyLast (· ++ s) =
      (':' :: rest') :: following' ∧ ¬Text.Begins (· = ':') rest' ∧
      Specified (':' :: rest') following' g spec (tail ++ s) [] := by
  obtain ⟨opening, aligned, signed, pretty, zeroPad, width, precision, ending, hleft, lettered,
    closed⟩ := h
  rename_i r a b
  have hopened : Opened g spec (g.zeroPad ++ r) := ⟨aligned, signed, pretty⟩
  have hb : b.Continues := .inl (by
    rw [ending]
    exact List.append_ne_nil_of_right_ne_nil _ hend)
  have hbs : b.extend s = ⟨b.text ++ s, []⟩ := by
    rw [Ahead.extend, if_pos hleft]
  have hprecision := precision.extend hb s
  have hwidth := width.extend (precision.continues hb) s
  have hending : (b.extend s).text = g.conversion ++ (g.close ++ (tail ++ s)) := by
    rw [hbs, ending]
    simp
  have hlettered : Lettered g.conversion spec.conversion (g.close ++ (tail ++ s)) := by
    rw [← List.append_assoc]
    exact lettered.append hend
  have hliterals : (b.extend s).literals = [] := by rw [hbs]
  cases following with
  | nil =>
      have hr := width.ne_nil
      have hrest : rest ≠ [] := by
        intro hnil
        rw [hnil, Parts.flags] at opening
        have := (List.cons.inj opening).2
        exact hr (List.append_eq_nil_iff.mp this.symm).2
      have hopened' := hopened.append hs fun hnil => absurd (List.append_eq_nil_iff.mp hnil).2 hr
      rw [List.append_assoc] at hopened'
      refine ⟨rest ++ s, [], rfl, Text.not_begins_append hc fun hnil => absurd hnil hrest, ?_⟩
      refine .intro ?_ hopened'.aligned hopened'.signed hopened'.pretty
        (zeroPad.append fun _ hnil => absurd hnil hr) hwidth hprecision hending hliterals hlettered
        (closed.append hend)
      rw [← List.append_assoc, ← opening]
      rfl
  | cons literal following =>
      rw [modifyLast_cons_cons]
      refine ⟨rest, _, rfl, hc, ?_⟩
      exact .intro opening aligned signed pretty zeroPad hwidth hprecision hending hliterals
        hlettered (closed.append hend)

end Grammar

end SlotText
