import SlotText.Proofs.Renderer.Calls
import Mathlib.Data.List.Dedup
import Mathlib.Data.List.DropRight
import Mathlib.Data.List.Nodup

/-!
# The keys of a cache are the most recent ones

A cache moves an entry to the end when it is asked for, and drops the first one when it is full.
What it holds after a run of operations can be said without these steps, by the run as a whole.
Take the literals requested since the cache was last cleared, leave out those that cannot be
compiled, and of equal ones keep the last. The keys are the end of this list, as long as the
capacity allows.
-/
namespace SlotText.BlueprintCache

section Lists

variable {α : Type} {l : List α} {a : α} {n : Nat}

theorem length_rtake (l : List α) (n : Nat) : (l.rtake n).length = min n l.length := by
  rw [List.rtake, List.length_drop]
  omega

theorem rtake_of_length_le (h : l.length ≤ n) : l.rtake n = l := by
  rw [List.rtake, Nat.sub_eq_zero_of_le h, List.drop_zero]

theorem rtake_append (l₁ : List α) {l₂ : List α} (h : l₂.length = n) :
    (l₁ ++ l₂).rtake n = l₂ := by
  rw [List.rtake, List.length_append, h, Nat.add_sub_cancel, List.drop_left]

variable [DecidableEq α]

/-- Of an element that is added at the end, an earlier occurrence is not kept. -/
theorem dedup_concat (l : List α) (a : α) :
    (l ++ [a]).dedup = l.dedup.filter (· ≠ a) ++ [a] := by
  induction l with
  | nil => rfl
  | cons x l ih =>
      by_cases hx : x ∈ l
      · have hx' : x ∈ l ++ [a] := List.mem_append_left _ hx
        rw [List.cons_append, List.dedup_cons_of_mem hx', List.dedup_cons_of_mem hx, ih]
      · by_cases ha : x = a
        · have hx' : x ∈ l ++ [a] := by simp [ha]
          rw [List.cons_append, List.dedup_cons_of_mem hx', List.dedup_cons_of_notMem hx, ih,
            List.filter_cons_of_neg (by simp [ha])]
        · have hx' : x ∉ l ++ [a] := by simp [hx, ha]
          rw [List.cons_append, List.dedup_cons_of_notMem hx', List.dedup_cons_of_notMem hx, ih,
            List.filter_cons_of_pos (by simp [ha]), List.cons_append]

theorem filter_ne_of_notMem (h : a ∉ l) : l.filter (· ≠ a) = l := by
  apply List.filter_eq_self.mpr
  intro x hx
  have hne : x ≠ a := fun hxa => h (hxa ▸ hx)
  simpa using hne

theorem length_filter_ne (hl : l.Nodup) (h : a ∈ l) :
    (l.filter (· ≠ a)).length + 1 = l.length := by
  have hlength := List.length_erase_of_mem h
  have hpos := List.length_pos_of_mem h
  have hfilter : l.filter (· ≠ a) = l.erase a := by
    rw [hl.erase_eq_filter]
    exact List.filter_congr fun x _ => Bool.eq_iff_iff.mpr (by simp)
  rw [hfilter, hlength]
  omega

/-- An element that is among the last ones moves to the end of them. -/
theorem rtake_touch_of_mem (hl : l.Nodup) (h : a ∈ l.rtake n) :
    (l.filter (· ≠ a) ++ [a]).rtake n = (l.rtake n).filter (· ≠ a) ++ [a] := by
  obtain ⟨front, hfront⟩ : ∃ front, l = front ++ l.rtake n := ⟨_, (List.take_append_drop _ l).symm⟩
  have hlength := length_rtake l n
  generalize l.rtake n = last at h hfront hlength ⊢
  subst hfront
  have hnot : a ∉ front := fun ha => List.disjoint_of_nodup_append hl ha h
  have hlast := length_filter_ne hl.of_append_right h
  rw [List.filter_append, filter_ne_of_notMem hnot, List.append_assoc]
  rcases Nat.lt_or_ge (front ++ last).length n with hn | hn
  · rw [List.length_append] at hn hlength
    have hnil : front = [] := List.length_eq_zero_iff.mp (by omega)
    subst hnil
    apply rtake_of_length_le
    simp only [List.nil_append, List.length_append, List.length_singleton, List.length_nil] at hn ⊢
    omega
  · apply rtake_append
    rw [List.length_append, List.length_singleton]
    omega

/-- An element that is not among the last ones is added to them, and the first one of them gives
way if there is no room. -/
theorem rtake_touch_of_notMem (hn : 0 < n) (h : a ∉ l.rtake n) :
    (l.filter (· ≠ a) ++ [a]).rtake n =
      (if n ≤ (l.rtake n).length then (l.rtake n).drop 1 else l.rtake n) ++ [a] := by
  obtain ⟨front, hfront⟩ : ∃ front, l = front ++ l.rtake n := ⟨_, (List.take_append_drop _ l).symm⟩
  have hlength := length_rtake l n
  generalize l.rtake n = last at h hfront hlength ⊢
  subst hfront
  rw [List.filter_append, filter_ne_of_notMem h]
  rw [List.length_append] at hlength
  split
  · next hfull =>
      obtain ⟨x, last, rfl⟩ := List.exists_cons_of_length_pos (Nat.lt_of_lt_of_le hn hfull)
      have hsplit : front.filter (· ≠ a) ++ x :: last ++ [a] =
          (front.filter (· ≠ a) ++ [x]) ++ (last ++ [a]) := by simp
      rw [hsplit, List.drop_one, List.tail_cons]
      apply rtake_append
      rw [List.length_append, List.length_singleton]
      rw [List.length_cons] at hfull hlength
      omega
  · next hroom =>
      have hnil : front = [] := List.length_eq_zero_iff.mp (by omega)
      subst hnil
      apply rtake_of_length_le
      simp only [List.filter_nil, List.nil_append, List.length_append, List.length_singleton]
      omega

end Lists

inductive Operation where
  | request (segments : List Text)
  | clear

def perform (c : BlueprintCache) : Operation → BlueprintCache
  | .request segments => (c.request segments).2
  | .clear => c.clear

/-- The cache after some operations. -/
def after (c : BlueprintCache) (ops : List Operation) : BlueprintCache := ops.foldl perform c

/-- The literals requested since the last clear, the first ones in front. -/
def requested (ops : List Operation) : List (List Text) :=
  ops.foldl (fun requests op => match op with
    | .request segments => requests ++ [segments]
    | .clear => []) []

def compiles (segments : List Text) : Bool := (Blueprint.ofSegments segments).isOk

/-- The requested literals that can be compiled, each of them once, in the order in which they were
requested for the last time. -/
def recent (requests : List (List Text)) : List (List Text) :=
  (requests.filter compiles).dedup

theorem requested_concat (ops : List Operation) (op : Operation) :
    requested (ops ++ [op]) = match op with
      | .request segments => requested ops ++ [segments]
      | .clear => [] := by
  simp only [requested, List.foldl_append]
  rfl

theorem after_concat (c : BlueprintCache) (ops : List Operation) (op : Operation) :
    c.after (ops ++ [op]) = (c.after ops).perform op := by
  simp [after]

theorem recent_concat_of_ok {segments : List Text} {b : Blueprint}
    (h : Blueprint.ofSegments segments = .ok b) (requests : List (List Text)) :
    recent (requests ++ [segments]) = (recent requests).filter (· ≠ segments) ++ [segments] := by
  have hok : compiles segments = true := by
    rw [compiles, h]
    rfl
  rw [recent, List.filter_append, List.filter_cons_of_pos hok, List.filter_nil]
  exact dedup_concat _ segments

theorem recent_concat_of_error {segments : List Text} {e : Failure}
    (h : Blueprint.ofSegments segments = .error e) (requests : List (List Text)) :
    recent (requests ++ [segments]) = recent requests := by
  have hok : ¬compiles segments = true := by
    rw [compiles, h]
    exact Bool.false_ne_true
  rw [recent, List.filter_append, List.filter_cons_of_neg hok, List.filter_nil, List.append_nil]
  rfl

theorem exists_of_mem_recent {segments : List Text} {requests : List (List Text)}
    (h : segments ∈ recent requests) : ∃ b, Blueprint.ofSegments segments = .ok b := by
  have hok := (List.mem_filter.mp (List.mem_dedup.mp h)).2
  cases hb : Blueprint.ofSegments segments with
  | ok b => exact ⟨b, rfl⟩
  | error e =>
      rw [compiles, hb] at hok
      cases hok

variable {c : BlueprintCache} {segments : List Text}

theorem mem_keys_iff : segments ∈ c.keys ↔ ∃ b, c.find? segments = some b := by
  constructor
  · intro h
    cases hf : c.find? segments with
    | some b => exact ⟨b, rfl⟩
    | none =>
        obtain ⟨e, he, rfl⟩ := List.mem_map.mp h
        have hne := List.lookup_eq_none_iff.mp hf e he
        simp at hne
  · intro h
    obtain ⟨b, hb⟩ := h
    obtain ⟨l₁, l₂, hentries, -⟩ := List.lookup_eq_some_iff.mp hb
    exact List.mem_map.mpr ⟨(segments, b), by simp [hentries], rfl⟩

theorem find?_of_notMem (h : segments ∉ c.keys) : c.find? segments = none := by
  cases hf : c.find? segments with
  | none => rfl
  | some b => exact absurd (mem_keys_iff.mpr ⟨b, hf⟩) h

theorem request_of_error (h : segments ∉ c.keys) {e : Failure}
    (he : Blueprint.ofSegments segments = .error e) :
    c.request segments = (.error e, { c with misses := c.misses + 1 }) := by
  rw [request, find?_of_notMem h]
  simp only [he]

theorem request_of_ok (h : segments ∉ c.keys) {b : Blueprint}
    (hb : Blueprint.ofSegments segments = .ok b) :
    c.request segments = (.ok b, { c with misses := c.misses + 1 }.store segments b) := by
  rw [request, find?_of_notMem h]
  simp only [hb]

theorem keys_request_of_mem (h : segments ∈ c.keys) :
    (c.request segments).2.keys = c.keys.filter (· ≠ segments) ++ [segments] := by
  obtain ⟨b, hb⟩ := mem_keys_iff.mp h
  rw [request_of_find? hb]
  simp only [keys, without, List.map_append, List.map_cons, List.map_nil, List.filter_map]
  rfl

theorem keys_request_of_notMem (h : segments ∉ c.keys) {b : Blueprint}
    (hb : Blueprint.ofSegments segments = .ok b) :
    (c.request segments).2.keys =
      (if c.capacity ≤ c.keys.length then c.keys.drop 1 else c.keys) ++ [segments] := by
  rw [request_of_ok h hb]
  simp only [keys, store, List.length_map, List.map_append, List.map_cons, List.map_nil]
  split
  · rw [List.map_drop]
  · rfl

theorem capacity_request (c : BlueprintCache) (segments : List Text) :
    (c.request segments).2.capacity = c.capacity := by
  unfold request
  split
  · rfl
  · split
    · rfl
    · rfl

/-- A request is a hit exactly if the key is held, and a miss otherwise. Whatever a cache holds for
a key is what a hit returns. A miss that fails changes nothing but the count. -/
theorem request_counts (c : BlueprintCache) (segments : List Text) :
    (segments ∈ c.keys → (c.request segments).2.hits = c.hits + 1 ∧
      (c.request segments).2.misses = c.misses ∧
      ∃ b, c.find? segments = some b ∧ (c.request segments).1 = .ok b) ∧
    (segments ∉ c.keys → (c.request segments).2.hits = c.hits ∧
      (c.request segments).2.misses = c.misses + 1 ∧
      ∀ e, (c.request segments).1 = .error e → (c.request segments).2.entries = c.entries) := by
  constructor
  · intro h
    obtain ⟨b, hb⟩ := mem_keys_iff.mp h
    rw [request_of_find? hb]
    exact ⟨rfl, rfl, b, hb, rfl⟩
  · intro h
    cases hb : Blueprint.ofSegments segments with
    | error e =>
        rw [request_of_error h hb]
        exact ⟨rfl, rfl, fun _ _ => rfl⟩
    | ok b =>
        rw [request_of_ok h hb]
        refine ⟨rfl, rfl, ?_⟩
        intro e he
        cases he

/-- The keys and the counts of a cache are those of a history. -/
structure Tracks (c : BlueprintCache) (requests : List (List Text)) : Prop where
  keys : c.keys = (recent requests).rtake c.capacity
  gets : c.hits + c.misses = requests.length

variable {requests : List (List Text)}

theorem Tracks.request (h : c.Tracks requests) (segments : List Text) :
    (c.request segments).2.Tracks (requests ++ [segments]) := by
  have hcapacity := capacity_request c segments
  have hcounts := request_counts c segments
  have hgets := h.gets
  constructor
  · rw [hcapacity]
    by_cases hmem : segments ∈ c.keys
    · have hmem' : segments ∈ (recent requests).rtake c.capacity := h.keys ▸ hmem
      obtain ⟨b, hb⟩ := exists_of_mem_recent (List.mem_of_mem_drop hmem')
      rw [keys_request_of_mem hmem, recent_concat_of_ok hb, h.keys]
      exact (rtake_touch_of_mem (List.nodup_dedup _) hmem').symm
    · have hmem' : segments ∉ (recent requests).rtake c.capacity := h.keys ▸ hmem
      cases hb : Blueprint.ofSegments segments with
      | error e =>
          rw [recent_concat_of_error hb, request_of_error hmem hb]
          exact h.keys
      | ok b =>
          rw [keys_request_of_notMem hmem hb, recent_concat_of_ok hb, h.keys]
          exact (rtake_touch_of_notMem c.capacity_pos hmem').symm
  · rw [List.length_append, List.length_singleton]
    by_cases hmem : segments ∈ c.keys
    · obtain ⟨hhits, hmisses, -⟩ := hcounts.1 hmem
      omega
    · obtain ⟨hhits, hmisses, -⟩ := hcounts.2 hmem
      omega

theorem tracks_clear (c : BlueprintCache) : c.clear.Tracks [] := by
  constructor
  · exact (List.rtake_nil _).symm
  · rfl

theorem tracks_after (h : c.Tracks []) (ops : List Operation) :
    (c.after ops).Tracks (requested ops) ∧ (c.after ops).capacity = c.capacity := by
  induction ops using List.reverseRecOn with
  | nil => exact ⟨h, rfl⟩
  | append_singleton ops op ih =>
      obtain ⟨htracks, hcapacity⟩ := ih
      rw [after_concat, requested_concat]
      cases op with
      | request segments =>
          exact ⟨htracks.request segments, (capacity_request _ segments).trans hcapacity⟩
      | clear => exact ⟨tracks_clear _, hcapacity⟩

/-- The keys are the most recent ones, as many as there are and the capacity allows, the least
recent first; the counts add up to the requests; and the next request is a hit or a miss by the
keys. -/
theorem keys_after_eq_rtake {n : Int} (hn : 1 ≤ n) :
    ∃ c, ofCapacity n = .ok c ∧ ∀ ops : List Operation,
      (c.after ops).keys = (recent (requested ops)).rtake n.toNat ∧
      (c.after ops).size = min n.toNat (recent (requested ops)).length ∧
      (c.after ops).size ≤ n ∧
      (c.after ops).hits + (c.after ops).misses = (requested ops).length ∧
      ∀ segments,
        (segments ∈ (c.after ops).keys →
          ((c.after ops).request segments).2.hits = (c.after ops).hits + 1 ∧
          ((c.after ops).request segments).2.misses = (c.after ops).misses ∧
          ∃ b, (c.after ops).find? segments = some b ∧
            ((c.after ops).request segments).1 = .ok b) ∧
        (segments ∉ (c.after ops).keys →
          ((c.after ops).request segments).2.hits = (c.after ops).hits ∧
          ((c.after ops).request segments).2.misses = (c.after ops).misses + 1 ∧
          ∀ e, ((c.after ops).request segments).1 = .error e →
            ((c.after ops).request segments).2.entries = (c.after ops).entries) := by
  have hpos : 0 < n.toNat := by omega
  refine ⟨{ capacity := n.toNat, capacity_pos := hpos }, dif_pos hpos, ?_⟩
  intro ops
  generalize hc : ({ capacity := n.toNat, capacity_pos := hpos } : BlueprintCache) = c
  have hempty : c.Tracks [] := by
    rw [← hc]
    exact ⟨(List.rtake_nil _).symm, rfl⟩
  have hcapacity : c.capacity = n.toNat := by rw [← hc]
  obtain ⟨⟨hkeys, hgets⟩, hafter⟩ := tracks_after hempty ops
  rw [hafter, hcapacity] at hkeys
  have hsize : (c.after ops).size = min n.toNat (recent (requested ops)).length := by
    rw [← length_rtake, ← hkeys, keys, List.length_map, size]
  refine ⟨hkeys, hsize, by omega, hgets, ?_⟩
  intro segments
  exact request_counts _ segments

/-- The first key is asked for again before there is no room left, so the second one gives way. -/
theorem keys_after_refresh :
    (1 : Int) ≤ 2 ∧ ∃ c, ofCapacity 2 = .ok c ∧
      (c.after [.request [['a']], .request [['b']], .request [[], [':']], .request [['a']],
        .request [['c']]]).keys = [[['a']], [['c']]] ∧
      (c.after [.request [['a']], .request [['b']], .request [[], [':']], .request [['a']],
        .request [['c']]]).size ≤ 2 := by
  obtain ⟨c, hc, hafter⟩ := keys_after_eq_rtake (show (1 : Int) ≤ 2 by decide)
  obtain ⟨hkeys, -, hsize, -, -⟩ := hafter
    [.request [['a']], .request [['b']], .request [[], [':']], .request [['a']], .request [['c']]]
  refine ⟨by decide, c, hc, ?_, by omega⟩
  rw [hkeys]
  rfl

end SlotText.BlueprintCache
