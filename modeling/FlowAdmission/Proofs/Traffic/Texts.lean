import FlowAdmission.Traffic.Matching
import Mathlib.Data.List.Basic

/-!
# Texts tell matchings apart

Matchings with the same text are equal (`Matching.text_inj`). A text is a list of fields with a
separator between them, and the separator stands in no field, so that splitting gives the fields
back (`intercalate_inj`). A matching is split at its blanks, an address with its port at the
colons, and four bytes at the dots.

An address needs no brackets. However many colons it has, the port is the last field, and the
fields before it tell the address (`Address.fields_inj`): only the run of zeros that was left out
makes an empty field, and only a dotted end has dots.
-/
namespace FlowAdmission

section separators
variable {sep c : Char} {xs ys : List (List Char)}

/-- Fields without the separator are read back by splitting. -/
theorem intercalate_inj (some_field : xs ≠ []) (some_field' : ys ≠ [])
    (clean : ∀ x ∈ xs, sep ∉ x) (clean' : ∀ y ∈ ys, sep ∉ y)
    (same : [sep].intercalate xs = [sep].intercalate ys) : xs = ys := by
  rw [← List.splitOn_intercalate sep clean some_field, same,
    List.splitOn_intercalate sep clean' some_field']

/-- Only the separator and the fields are in a text. -/
theorem mem_intercalate (mem : c ∈ [sep].intercalate xs) : c = sep ∨ ∃ x ∈ xs, c ∈ x := by
  induction xs with
  | nil => simp at mem
  | cons x rest ih =>
    cases rest with
    | nil => exact .inr ⟨x, List.mem_cons_self, by simpa using mem⟩
    | cons y rest =>
      rw [List.intercalate_cons_cons, List.append_assoc, List.mem_append] at mem
      rcases mem with here | later
      · exact .inr ⟨x, List.mem_cons_self, here⟩
      · rcases List.mem_append.mp later with between | later
        · exact .inl (List.mem_singleton.mp between)
        · exact (ih later).imp_right fun ⟨z, mem, inside⟩ => ⟨z, List.mem_cons_of_mem _ mem, inside⟩

theorem intercalate_append (some_field : xs ≠ []) (some_field' : ys ≠ []) :
    [sep].intercalate (xs ++ ys) = [sep].intercalate xs ++ sep :: [sep].intercalate ys := by
  induction xs with
  | nil => exact absurd rfl some_field
  | cons x rest ih =>
    cases rest with
    | nil => simp [List.intercalate_cons_of_ne_nil some_field']
    | cons y rest =>
      rw [List.cons_append, List.cons_append, List.intercalate_cons_cons, ← List.cons_append,
        ih (List.cons_ne_nil y rest), List.intercalate_cons_cons]
      simp only [List.append_assoc]

/-- A list is cut at the first item of a kind in one way only. -/
theorem first_inj {α : Type} [DecidableEq α] {a : α} {front front' rest rest' : List α}
    (first : a ∉ front) (first' : a ∉ front') (same : front ++ a :: rest = front' ++ a :: rest') :
    front = front' ∧ rest = rest' := by
  have cut := congrArg (List.splitOn a) same
  rw [List.splitOn_append_cons_self_of_not_mem first,
    List.splitOn_append_cons_self_of_not_mem first', List.cons.injEq] at cut
  obtain ⟨fronts, rests⟩ := cut
  have joined := congrArg ([a].intercalate ·) rests
  simp only [List.intercalate_splitOn] at joined
  exact ⟨fronts, joined⟩

end separators

section numerals
variable {b m n : Nat} {c : Char}

/-- A numeral is made of the digits of its base. -/
theorem mem_toDigits (base : 1 < b) (mem : c ∈ Nat.toDigits b n) :
    ∃ d < b, c = Nat.digitChar d := by
  induction n using Nat.strongRecOn with
  | ind n ih =>
    rw [Nat.toDigits_eq_if base] at mem
    split at mem
    · rename_i small
      exact ⟨n, small, List.mem_singleton.mp mem⟩
    · rename_i large
      rcases List.mem_append.mp mem with front | last
      · exact ih (n / b) (Nat.div_lt_self (by omega) base) front
      · exact ⟨n % b, Nat.mod_lt _ (by omega), List.mem_singleton.mp last⟩

theorem not_mem_toDigits (base : 1 < b) (digits : b ≤ 16)
    (other : ∀ d < 16, c ≠ Nat.digitChar d) : c ∉ Nat.toDigits b n := by
  intro mem
  obtain ⟨d, digit, same⟩ := mem_toDigits base mem
  exact other d (by omega) same

/-- The sixteen digits are different characters, so numbers have different numerals. -/
theorem toDigits_inj (base : 1 < b) (digits : b ≤ 16)
    (same : Nat.toDigits b m = Nat.toDigits b n) : m = n := by
  have digit : ∀ i < 16, ∀ j < 16, Nat.digitChar i = Nat.digitChar j → i = j := by decide
  induction m using Nat.strongRecOn generalizing n with
  | ind m ih =>
    rw [Nat.toDigits_eq_if base (n := m), Nat.toDigits_eq_if base (n := n)] at same
    split at same <;> split at same
    · rename_i small small'
      exact digit m (by omega) n (by omega) (List.singleton_inj.mp same)
    · have lengths := congrArg List.length same
      have some_digit := List.length_pos_of_ne_nil (Nat.toDigits_ne_nil (n := n / b) (b := b))
      simp only [List.length_append, List.length_singleton] at lengths
      omega
    · have lengths := congrArg List.length same
      have some_digit := List.length_pos_of_ne_nil (Nat.toDigits_ne_nil (n := m / b) (b := b))
      simp only [List.length_append, List.length_singleton] at lengths
      omega
    · rename_i large large'
      obtain ⟨front, last⟩ := List.append_inj' same rfl
      have quotient := ih (m / b) (Nat.div_lt_self (by omega) base) front
      have below : ∀ i, i % b < 16 := fun i => Nat.lt_of_lt_of_le (Nat.mod_lt i (by omega)) digits
      have remainder := digit _ (below m) _ (below n) (List.singleton_inj.mp last)
      rw [← Nat.div_add_mod m b, ← Nat.div_add_mod n b, quotient, remainder]

theorem toList_toString (n : Nat) : (toString n).toList = Nat.toDigits 10 n := by
  rw [Nat.toString_eq_ofList_toDigits, String.toList_ofList]

end numerals

namespace Address

/-! ### Four bytes -/

theorem dotted_eq (a b c d : UInt8) :
    dotted a b c d = ['.'].intercalate ([a, b, c, d].map fun byte => Nat.toDigits 10 byte.toNat) := by
  rw [dotted, String.toList_intercalate]
  simp only [List.map_cons, List.map_nil, toList_toString]
  rfl

theorem dotted_inj {a b c d a' b' c' d' : UInt8} (same : dotted a b c d = dotted a' b' c' d') :
    a = a' ∧ b = b' ∧ c = c' ∧ d = d' := by
  have clean : ∀ bytes : List UInt8,
      ∀ x ∈ bytes.map fun byte => Nat.toDigits 10 byte.toNat, '.' ∉ x := by
    intro bytes x mem
    obtain ⟨byte, _, rfl⟩ := List.mem_map.mp mem
    exact not_mem_toDigits (by omega) (by omega) (by decide)
  rw [dotted_eq, dotted_eq] at same
  have fields := intercalate_inj (by simp) (by simp) (clean _) (clean _) same
  have byte : ∀ {i j : UInt8}, Nat.toDigits 10 i.toNat = Nat.toDigits 10 j.toNat → i = j :=
    fun same => UInt8.toNat_inj.mp (toDigits_inj (by omega) (by omega) same)
  simp only [List.map_cons, List.map_nil, List.cons.injEq, and_true] at fields
  exact ⟨byte fields.1, byte fields.2.1, byte fields.2.2.1, byte fields.2.2.2⟩

/-! ### Eight groups -/

/-- What stands before, among and behind some leading zeros. -/
theorem eq_around_zeros {groups : List UInt16} {start n : Nat}
    (zeros : n ≤ leadingZeros (groups.drop start)) :
    groups = groups.take start ++ List.replicate n 0 ++ groups.drop (start + n) := by
  have every : ∀ g ∈ (groups.drop start).take n, g = 0 := by
    intro g mem
    rw [← List.takeWhile_append_dropWhile (p := (· == 0)) (l := groups.drop start),
      List.take_append_of_le_length zeros] at mem
    simpa using List.all_eq_true.mp List.all_takeWhile g (List.mem_of_mem_take mem)
  have length : ((groups.drop start).take n).length = n :=
    List.length_take_of_le (Nat.le_trans zeros (List.takeWhile_prefix _).length_le)
  have run := List.eq_replicate_of_mem every
  rw [length] at run
  calc groups = groups.take start ++ ((groups.drop start).take n ++ (groups.drop start).drop n) := by
        rw [List.take_append_drop, List.take_append_drop]
    _ = groups.take start ++ List.replicate n 0 ++ groups.drop (start + n) := by
        rw [run, List.drop_drop, List.append_assoc]

/-- The run that is found is one of zeros. -/
theorem longestZeroRun_zeros (groups : List UInt16) :
    (longestZeroRun groups).2 ≤ leadingZeros (groups.drop (longestZeroRun groups).1) := by
  unfold longestZeroRun
  generalize List.range groups.length = starts
  suffices kept : ∀ best : Nat × Nat, best.2 ≤ leadingZeros (groups.drop best.1) →
      let found := starts.foldl (fun best start =>
        let length := leadingZeros (groups.drop start)
        if best.2 < length then (start, length) else best) best
      found.2 ≤ leadingZeros (groups.drop found.1) from kept (0, 0) (Nat.zero_le _)
  induction starts with
  | nil => exact fun _ zeros => zeros
  | cons start rest ih =>
    intro best zeros
    apply ih
    dsimp only
    split
    · exact Nat.le_refl _
    · exact zeros

theorem hexDigits_inj {g g' : UInt16}
    (same : Text.hexDigits g.toNat = Text.hexDigits g'.toNat) : g = g' :=
  UInt16.toNat_inj.mp (toDigits_inj (by omega) (by omega) same)

/-- The fields of the groups on one side of a run of zeros that is left out. A side without groups
has an empty one. -/
def sideFields (groups : List UInt16) : List (List Char) :=
  if groups = [] then [[]] else groups.map fun g => Text.hexDigits g.toNat

theorem sideFields_ne_nil (groups : List UInt16) : sideFields groups ≠ [] := by
  unfold sideFields
  split <;> simp [*]

theorem mem_sideFields {groups : List UInt16} {x : List Char} {c : Char}
    (field : x ∈ sideFields groups) (mem : c ∈ x) : ∃ d < 16, c = Nat.digitChar d := by
  unfold sideFields at field
  split at field
  · rw [List.mem_singleton.mp field] at mem
    cases mem
  · obtain ⟨g, _, rfl⟩ := List.mem_map.mp field
    exact mem_toDigits (by omega) mem

theorem colonHex_eq (groups : List UInt16) :
    colonHex groups = [':'].intercalate (sideFields groups) := by
  rw [colonHex, String.toList_intercalate, sideFields]
  split
  · rename_i none_left
    rw [none_left]
    rfl
  · simp [Function.comp_def]

/-- Only a side without groups has an empty field. -/
theorem nil_not_mem_sideFields {groups : List UInt16} (some_group : groups ≠ []) :
    [] ∉ sideFields groups := by
  intro mem
  rw [sideFields, if_neg some_group] at mem
  obtain ⟨g, _, nothing⟩ := List.mem_map.mp mem
  exact Nat.toDigits_ne_nil nothing

theorem sideFields_inj {groups groups' : List UInt16}
    (same : sideFields groups = sideFields groups') : groups = groups' := by
  have empty : [] ∈ sideFields [] := List.mem_singleton_self []
  by_cases none : groups = [] <;> by_cases none' : groups' = []
  · rw [none, none']
  · subst none
    exact absurd (same ▸ empty) (nil_not_mem_sideFields none')
  · subst none'
    exact absurd (same ▸ empty) (nil_not_mem_sideFields none)
  · rw [sideFields, sideFields, if_neg none, if_neg none'] at same
    exact (List.map_inj_right fun _ _ => hexDigits_inj).mp same

/-- The sides of a run of zeros are told apart by the empty field between them. -/
theorem sides_inj {left right left' right' : List UInt16}
    (same : sideFields left ++ [] :: sideFields right =
      sideFields left' ++ [] :: sideFields right') : left = left' ∧ right = right' := by
  -- An empty side adds an empty field of its own, in front of the one between the sides.
  have behind : ∀ {gs rest : List UInt16}, gs ≠ [] → ∀ {fields : List (List Char)},
      sideFields gs ++ fields ≠ sideFields [] ++ [] :: sideFields rest := by
    intro gs rest some_group fields same
    obtain ⟨g, more, rfl⟩ := List.exists_cons_of_ne_nil some_group
    simp only [sideFields, List.cons_ne_nil, if_false, if_true, List.map_cons, List.cons_append,
      List.cons.injEq] at same
    exact Nat.toDigits_ne_nil same.1
  by_cases none : left = [] <;> by_cases none' : left' = []
  · subst none none'
    have rights := List.append_cancel_left same
    exact ⟨rfl, sideFields_inj (List.cons.inj rights).2⟩
  · subst none
    exact absurd same.symm (behind none')
  · subst none'
    exact absurd same (behind none)
  · obtain ⟨lefts, rights⟩ := first_inj (nil_not_mem_sideFields none) (nil_not_mem_sideFields none') same
    exact ⟨sideFields_inj lefts, sideFields_inj rights⟩

/-- A group is known by its two bytes. -/
theorem group_ext {g g' : UInt16} (high : (g >>> 8).toUInt8 = (g' >>> 8).toUInt8)
    (low : g.toUInt8 = g'.toUInt8) : g = g' := by
  have high := congrArg UInt8.toNat high
  have low := congrArg UInt8.toNat low
  have bound := g.toNat_lt
  have bound' := g'.toNat_lt
  apply UInt16.toNat_inj.mp
  simp [Nat.shiftRight_eq_div_pow] at high low bound bound'
  omega

theorem embedded?_eq_some {groups : List UInt16} {bytes : UInt8 × UInt8 × UInt8 × UInt8}
    (ends : embedded? groups = some bytes) : ∃ high low : UInt16,
      groups = [0, 0, 0, 0, 0, 0xffff, high, low] ∧
      bytes = ((high >>> 8).toUInt8, high.toUInt8, (low >>> 8).toUInt8, low.toUInt8) := by
  unfold embedded? at ends
  split at ends
  · rename_i high low
    exact ⟨high, low, rfl, (Option.some.inj ends).symm⟩
  · cases ends

/-- An address that ends in four bytes is known by them. -/
theorem embedded?_inj {groups groups' : List UInt16} {bytes : UInt8 × UInt8 × UInt8 × UInt8}
    (ends : embedded? groups = some bytes) (ends' : embedded? groups' = some bytes) :
    groups = groups' := by
  obtain ⟨high, low, rfl, rfl⟩ := embedded?_eq_some ends
  obtain ⟨high', low', rfl, same⟩ := embedded?_eq_some ends'
  simp only [Prod.mk.injEq] at same
  rw [group_ext same.1 same.2.1, group_ext same.2.2.1 same.2.2.2]

/-- The fields between the colons of eight groups. -/
def groupFields (groups : List UInt16) : List (List Char) :=
  match embedded? groups with
  | some (a, b, c, d) => [[], [], "ffff".toList, dotted a b c d]
  | none =>
    let (start, length) := longestZeroRun groups
    if 1 < length then
      sideFields (groups.take start) ++ [] :: sideFields (groups.drop (start + length))
    else sideFields groups

theorem groupsText_eq (groups : List UInt16) :
    groupsText groups = [':'].intercalate (groupFields groups) := by
  unfold groupsText groupFields
  cases embedded? groups with
  | some bytes => simp [List.intercalate_cons_cons]
  | none =>
    dsimp only
    split
    · rw [intercalate_append (sideFields_ne_nil _) (List.cons_ne_nil _ _),
        List.intercalate_cons_of_ne_nil (sideFields_ne_nil _), colonHex_eq, colonHex_eq]
      simp
    · exact colonHex_eq groups

/-- A dotted end, a run of zeros that is left out, or all groups. -/
theorem groupFields_cases (groups : List UInt16) :
    (∃ a b c d, embedded? groups = some (a, b, c, d) ∧
      groupFields groups = [[], [], "ffff".toList, dotted a b c d]) ∨
    (∃ left n right, groups = left ++ List.replicate n 0 ++ right ∧
      groupFields groups = sideFields left ++ [] :: sideFields right) ∨
    groupFields groups = sideFields groups := by
  unfold groupFields
  cases ends : embedded? groups with
  | some bytes =>
    obtain ⟨a, b, c, d⟩ := bytes
    exact .inl ⟨a, b, c, d, rfl, rfl⟩
  | none =>
    dsimp only
    split
    · exact .inr (.inl ⟨_, _, _, eq_around_zeros (longestZeroRun_zeros groups), rfl⟩)
    · exact .inr (.inr rfl)

theorem dot_mem_dotted (a b c d : UInt8) : '.' ∈ dotted a b c d := by
  simp [dotted_eq, List.intercalate_cons_cons]

theorem mem_dotted {a b c d : UInt8} {x : Char} (mem : x ∈ dotted a b c d) :
    x = '.' ∨ ∃ i < 16, x = Nat.digitChar i := by
  rw [dotted_eq] at mem
  refine (mem_intercalate mem).imp_right fun ⟨field, listed, inside⟩ => ?_
  obtain ⟨byte, _, rfl⟩ := List.mem_map.mp listed
  obtain ⟨i, digit, same⟩ := mem_toDigits (by omega) inside
  exact ⟨i, by omega, same⟩

/-- Groups in hexadecimal have no dots between them. -/
theorem dotted_not_mem_sideFields (a b c d : UInt8) (groups : List UInt16) :
    dotted a b c d ∉ sideFields groups := by
  intro field
  obtain ⟨i, digit, dot⟩ := mem_sideFields field (dot_mem_dotted a b c d)
  exact absurd dot ((by decide : ∀ i < 16, '.' ≠ Nat.digitChar i) i digit)

theorem dotted_not_mem_sides (a b c d : UInt8) (left right : List UInt16) :
    dotted a b c d ∉ sideFields left ++ [] :: sideFields right := by
  intro field
  rcases List.mem_append.mp field with field | field
  · exact dotted_not_mem_sideFields a b c d left field
  · rcases List.mem_cons.mp field with nothing | field
    · exact absurd (nothing ▸ dot_mem_dotted a b c d) List.not_mem_nil
    · exact dotted_not_mem_sideFields a b c d right field

/-- Eight groups are known by the fields between their colons. -/
theorem groupFields_inj {groups groups' : List UInt16} (eight : groups.length = 8)
    (eight' : groups'.length = 8) (same : groupFields groups = groupFields groups') :
    groups = groups' := by
  have some_group : ∀ {gs : List UInt16}, gs.length = 8 → [] ∉ sideFields gs := fun eight =>
    nil_not_mem_sideFields (List.ne_nil_of_length_pos (by omega))
  rcases groupFields_cases groups with
    ⟨a, b, c, d, ends, fields⟩ | ⟨left, n, right, around, fields⟩ | fields <;>
    rcases groupFields_cases groups' with
      ⟨a', b', c', d', ends', fields'⟩ | ⟨left', n', right', around', fields'⟩ | fields' <;>
    rw [fields, fields'] at same
  -- A dotted end against each of the three, then a run of zeros, then all groups.
  · simp only [List.cons.injEq, and_true, true_and] at same
    obtain ⟨rfl, rfl, rfl, rfl⟩ := dotted_inj same
    exact embedded?_inj ends ends'
  · exact absurd (by simp [← same]) (dotted_not_mem_sides a b c d left' right')
  · exact absurd (by simp [← same]) (dotted_not_mem_sideFields a b c d groups')
  · exact absurd (by simp [same]) (dotted_not_mem_sides a' b' c' d' left right)
  · obtain ⟨rfl, rfl⟩ := sides_inj same
    have zeros : n = n' := by
      rw [around] at eight
      rw [around'] at eight'
      simp only [List.length_append, List.length_replicate] at eight eight'
      omega
    rw [around, around', zeros]
  · exact absurd (by simp [← same]) (some_group eight')
  · exact absurd (by simp [same]) (dotted_not_mem_sideFields a' b' c' d' groups)
  · exact absurd (by simp [same]) (some_group eight)
  · exact sideFields_inj same

/-- The fields between the colons of an address. -/
def fields : Address → List (List Char)
  | .v4 a b c d => [dotted a b c d]
  | .v6 groups => groupFields groups.toList

theorem text_eq (address : Address) : address.text = [':'].intercalate address.fields := by
  cases address with
  | v4 a b c d => simp [text, fields]
  | v6 groups => exact groupsText_eq groups.toList

/-- An address of eight groups has several fields. -/
theorem one_lt_length_groupFields (groups : Vector UInt16 8) :
    1 < (groupFields groups.toList).length := by
  have eight : groups.toList.length = 8 := Vector.length_toList
  rcases groupFields_cases groups.toList with ⟨a, b, c, d, _, same⟩ | ⟨left, n, right, _, same⟩ | same <;>
    rw [same]
  · simp
  · have some_field := List.length_pos_of_ne_nil (sideFields_ne_nil right)
    simp only [List.length_append, List.length_cons]
    omega
  · have some_group : groups.toList ≠ [] := List.ne_nil_of_length_pos (by omega)
    simp [sideFields, some_group, eight]

theorem fields_ne_nil (address : Address) : address.fields ≠ [] := by
  cases address with
  | v4 a b c d => exact List.cons_ne_nil _ _
  | v6 groups =>
    have several := one_lt_length_groupFields groups
    exact List.ne_nil_of_length_pos (Nat.lt_trans Nat.zero_lt_one several)

/-- Addresses are known by their fields. -/
theorem fields_inj {address address' : Address} (same : address.fields = address'.fields) :
    address = address' := by
  have several : ∀ {a b c d : UInt8} {groups : Vector UInt16 8},
      [dotted a b c d] ≠ groupFields groups.toList := by
    intro a b c d groups same
    have several := one_lt_length_groupFields groups
    rw [← same] at several
    exact absurd several (Nat.lt_irrefl 1)
  cases address with
  | v4 a b c d =>
    cases address' with
    | v4 a' b' c' d' =>
      obtain ⟨rfl, rfl, rfl, rfl⟩ := dotted_inj (List.singleton_inj.mp same)
      rfl
    | v6 groups' => exact absurd same several
  | v6 groups =>
    cases address' with
    | v4 a' b' c' d' => exact absurd same.symm several
    | v6 groups' =>
      rw [Vector.toList_inj.mp (groupFields_inj (by simp) (by simp) same)]

/-- Digits and dots make up the fields. -/
theorem mem_fields {address : Address} {x : List Char} {c : Char} (field : x ∈ address.fields)
    (mem : c ∈ x) : c = '.' ∨ ∃ i < 16, c = Nat.digitChar i := by
  cases address with
  | v4 a b c d =>
    rw [List.mem_singleton.mp field] at mem
    exact mem_dotted mem
  | v6 groups =>
    replace field : x ∈ groupFields groups.toList := field
    rcases groupFields_cases groups.toList with
      ⟨_, _, _, _, _, same⟩ | ⟨left, n, right, _, same⟩ | same <;> rw [same] at field
    · simp only [List.mem_cons, List.not_mem_nil, or_false] at field
      rcases field with rfl | rfl | rfl | rfl
      · cases mem
      · cases mem
      · obtain rfl : c = 'f' := by simpa using mem
        exact .inr ⟨15, by omega, rfl⟩
      · exact mem_dotted mem
    · rcases List.mem_append.mp field with field | field
      · exact .inr (mem_sideFields field mem)
      · rcases List.mem_cons.mp field with rfl | field
        · cases mem
        · exact .inr (mem_sideFields field mem)
    · exact .inr (mem_sideFields field mem)

/-- A colon or a blank separates, so it is in no field. -/
theorem not_mem_field {address : Address} {x : List Char} {sep : Char} (dot : sep ≠ '.')
    (digit : ∀ i < 16, sep ≠ Nat.digitChar i) (field : x ∈ address.fields) : sep ∉ x := by
  intro mem
  rcases mem_fields field mem with same | ⟨i, small, same⟩
  · exact dot same
  · exact digit i small same

end Address

namespace Matching

theorem endpointText_eq (address : Address) (port : UInt16) :
    endpointText address port =
      [':'].intercalate (address.fields ++ [Nat.toDigits 10 port.toNat]) := by
  rw [intercalate_append address.fields_ne_nil (List.cons_ne_nil _ _), endpointText,
    address.text_eq, toList_toString, List.intercalate_singleton]

/-- The port is the last field, so no bracket has to end the address. -/
theorem endpointText_inj {address address' : Address} {port port' : UInt16}
    (same : endpointText address port = endpointText address' port') :
    address = address' ∧ port = port' := by
  have clean : ∀ (address : Address) (port : UInt16),
      ∀ x ∈ address.fields ++ [Nat.toDigits 10 port.toNat], ':' ∉ x := by
    intro address port x field
    rcases List.mem_append.mp field with field | last
    · exact Address.not_mem_field (by decide) (by decide) field
    · rw [List.mem_singleton.mp last]
      exact not_mem_toDigits (by omega) (by omega) (by decide)
  rw [endpointText_eq, endpointText_eq] at same
  have fields := intercalate_inj (by simp) (by simp) (clean _ _) (clean _ _) same
  obtain ⟨addresses, ports⟩ := List.append_inj' fields rfl
  exact ⟨Address.fields_inj addresses, UInt16.toNat_inj.mp
    (toDigits_inj (by omega) (by omega) (List.singleton_inj.mp ports))⟩

/-- The same text is also that of an address without a port, which a matching never writes. -/
example : endpointText (.v6 #v[0, 0, 0, 0, 0, 0, 0, 1]) 80 = "::1:80".toList ∧
    (Address.v6 #v[0, 0, 0, 0, 0, 0, 1, 0x80]).text = "::1:80".toList := by
  decide +kernel

theorem blank_not_mem_endpointText (address : Address) (port : UInt16) :
    ' ' ∉ endpointText address port := by
  intro mem
  rw [endpointText_eq] at mem
  rcases mem_intercalate mem with colon | ⟨x, field, inside⟩
  · cases colon
  · rcases List.mem_append.mp field with field | last
    · exact Address.not_mem_field (by decide) (by decide) field inside
    · rw [List.mem_singleton.mp last] at inside
      exact not_mem_toDigits (by omega) (by omega) (by decide) inside

theorem chars_eq (m : Matching) :
    m.chars = [' '].intercalate [endpointText m.source m.sourcePort, "->".toList,
      endpointText m.destination m.destinationPort, "proto".toList,
      Nat.toDigits 10 m.protocol.toNat] := by
  simp [chars, List.intercalate_cons_cons]

/-- Matchings are equal exactly when they are written the same, whichever kinds of addresses they
have. -/
theorem text_inj {m m' : Matching} : m.text = m'.text ↔ m = m' := by
  refine ⟨fun same => ?_, congrArg text⟩
  have clean : ∀ m : Matching, ∀ x ∈ [endpointText m.source m.sourcePort, "->".toList,
      endpointText m.destination m.destinationPort, "proto".toList,
      Nat.toDigits 10 m.protocol.toNat], ' ' ∉ x := by
    intro m
    have source := blank_not_mem_endpointText m.source m.sourcePort
    have destination := blank_not_mem_endpointText m.destination m.destinationPort
    have protocol : ' ' ∉ Nat.toDigits 10 m.protocol.toNat :=
      not_mem_toDigits (by omega) (by omega) (by decide)
    simp [source, destination, protocol]
  have chars := String.ofList_injective same
  rw [chars_eq, chars_eq] at chars
  have fields := intercalate_inj (by simp) (by simp) (clean m) (clean m') chars
  simp only [List.cons.injEq, and_true, true_and] at fields
  obtain ⟨first, second, third⟩ := fields
  obtain ⟨source, sourcePort⟩ := endpointText_inj first
  obtain ⟨destination, destinationPort⟩ := endpointText_inj second
  have protocol := UInt8.toNat_inj.mp (toDigits_inj (by omega) (by omega) third)
  cases m; cases m'
  simp_all

end Matching
end FlowAdmission
