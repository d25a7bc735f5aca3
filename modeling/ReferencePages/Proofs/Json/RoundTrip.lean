import ReferencePages.Json.Printer
import ReferencePages.Json.Reader

/-!
# Reading what was written

A value without numbers whose strings all have a text is read again from the text that is written
for it (`ofText?_toText`). Each part of the writer has its part of the reader, and a part is read
back whatever text follows it: an escaped character, a string (`readString_escape`), the items of
an array, the members of an object, and so a value.

The reader carries a bound on its own depth. The text of a value is longer than the reader goes
deep on it, so the length of the text is bound enough.
-/

namespace ReferencePages.Json

/-! ## Strings -/

/-- What an escaped character is read as. -/
def unitOf (c : Char) : StringUnit :=
  if c.toNat < 0x20 ∧ c ∉ ['\n', '\r', '\t', '\x08', '\x0c'] then .escape c.toNat else .char c

theorem readUnits_short {c d : Char} (hc : c ≠ 'u') (h : shortEscape? c = some d) (s : List Char) :
    readUnits ('\\' :: c :: s) = (readUnits s).map fun r => (.char d :: r.1, r.2) := by
  rw [readUnits, h]
  · cases readUnits s <;> rfl
  · intro _ _ _ _ _ hu
    exact absurd hu hc

theorem readUnits_number {a b c d : Char} {n : Nat} (h : hexUnit? a b c d = some n)
    (s : List Char) : readUnits ('\\' :: 'u' :: a :: b :: c :: d :: s) =
      (readUnits s).map fun r => (.escape n :: r.1, r.2) := by
  rw [readUnits, h]
  cases readUnits s <;> rfl

theorem readUnits_plain {c : Char} (hquote : c ≠ '"') (hslash : c ≠ '\\') (hc : ¬c.toNat < 0x20)
    (s : List Char) : readUnits (c :: s) = (readUnits s).map fun r => (.char c :: r.1, r.2) := by
  rw [readUnits]
  · rw [if_neg (by simp [hslash, hc])]
    cases readUnits s <;> rfl
  · exact hquote
  · intro _ _ _ _ _ h
    exact absurd h hslash
  · intro _ _ h
    exact absurd h hslash

theorem hexUnit?_hexDigit {n : Nat} (h : n < 0x20) :
    hexUnit? '0' '0' (hexDigit (n / 16)) (hexDigit (n % 16)) = some n := by
  have hall : ∀ n < 0x20, hexUnit? '0' '0' (hexDigit (n / 16)) (hexDigit (n % 16)) = some n := by
    decide
  exact hall n h

/-- An escaped character is read back. -/
theorem readUnits_escapeChar (c : Char) (s : List Char) :
    readUnits (escapeChar c ++ s) = (readUnits s).map fun r => (unitOf c :: r.1, r.2) := by
  unfold escapeChar
  -- Seven characters have an escape of a single letter.
  iterate 7
    split
    · subst c
      exact readUnits_short (by decide) rfl s
  next hquote hslash hfeed hreturn htab hback hpage =>
  split
  · next hcontrol =>
    have hunit : unitOf c = .escape c.toNat := if_pos ⟨hcontrol, by simp [*]⟩
    rw [hunit]
    exact readUnits_number (hexUnit?_hexDigit hcontrol) s
  · next hplain =>
    have hunit : unitOf c = .char c := if_neg fun h => hplain h.1
    rw [hunit]
    exact readUnits_plain hquote hslash hplain s

theorem readUnits_escape (s rest : List Char) :
    readUnits (s.flatMap escapeChar ++ '"' :: rest) = some (s.map unitOf, rest) := by
  induction s with
  | nil => rfl
  | cons c s ih => rw [List.flatMap_cons, List.append_assoc, readUnits_escapeChar, ih]; rfl

/-- The escape of a number below the surrogates is a character of its own. -/
theorem joinUnits_escape {n : Nat} (h : n < 0xd800) (units : List StringUnit) :
    joinUnits (.escape n :: units) = (joinUnits units).map (Char.ofNat n :: ·) := by
  have hhigh : isHighHalf n = false := by
    simp only [isHighHalf, Bool.and_eq_false_iff, decide_eq_false_iff_not]
    omega
  have hlow : isLowHalf n = false := by
    simp only [isLowHalf, Bool.and_eq_false_iff, decide_eq_false_iff_not]
    omega
  rcases units with _ | ⟨c | m, units⟩ <;> simp [joinUnits, hhigh, hlow]

theorem joinUnits_map_unitOf (s : List Char) : joinUnits (s.map unitOf) = some s := by
  induction s with
  | nil => rfl
  | cons c s ih =>
    rw [List.map_cons, unitOf]
    split
    · next h =>
      rw [joinUnits_escape (by omega), ih, Option.map_some, Char.ofNat_toNat]
    · rw [joinUnits, ih, Option.map_some]

/-- A string is read back. -/
theorem readString_escape (s : String) (rest : List Char) :
    readString (s.toList.flatMap escapeChar ++ '"' :: rest) = some (some s, rest) := by
  rw [readString, readUnits_escape, Option.bind_eq_bind, Option.bind_some]
  dsimp only
  rw [joinUnits_map_unitOf, Option.map_some, String.ofList_toList]
  rfl

/-! ## Gaps -/

theorem skipGap_cons {c : Char} (h : isGap c = false) (s : List Char) :
    skipGap (c :: s) = c :: s := by
  rw [skipGap, List.dropWhile_cons_of_neg (by simp [h])]

/-- A line break and its indentation are skipped. -/
theorem skipGap_newLine (level : Nat) (s : List Char) :
    skipGap (newLine level ++ s) = skipGap s := by
  refine List.dropWhile_append_of_pos fun c hc => ?_
  rcases List.mem_cons.1 hc with rfl | hc
  · rfl
  · obtain ⟨unit, hunit, hc⟩ := List.mem_flatten.1 hc
    rw [List.eq_of_mem_replicate hunit] at hc
    have hspace : c = ' ' := by simpa using hc
    rw [hspace]
    rfl

/-! ## Values -/

/-- A value without numbers, all strings of which have a text. -/
inductive Plain : Json → Prop where
  | null : Plain .null
  | bool (b : Bool) : Plain (.bool b)
  | text (s : String) : Plain (.text s)
  | array {items : List Json} (h : ∀ item ∈ items, Plain item) : Plain (.array items)
  | object {members : List (Option String × Json)} (hkeys : ∀ m ∈ members, m.1.isSome = true)
    (h : ∀ m ∈ members, Plain m.2) : Plain (.object members)

/-- The text of a value begins with a character that is neither a blank nor closes an array. -/
theorem Plain.print_eq_cons {v : Json} (h : v.Plain) (level : Nat) :
    ∃ c s, print level v = c :: s ∧ isGap c = false ∧ c ≠ ']' := by
  cases h with
  | null => exact ⟨'n', _, rfl, rfl, by decide⟩
  | bool b => cases b <;> exact ⟨_, _, rfl, rfl, by decide⟩
  | text s => exact ⟨'"', _, rfl, rfl, by decide⟩
  | array h => rename_i items; cases items <;> exact ⟨'[', _, rfl, rfl, by decide⟩
  | object hkeys h => rename_i members; cases members <;> exact ⟨'\x7b', _, rfl, rfl, by decide⟩

/-! ### Steps of the reader -/

section

variable {fuel : Nat} {s t rest : List Char} {item value : Json} {key : Option String} {c : Char}

theorem readItems_last (h : readValue fuel s = some (item, t)) (ht : skipGap t = ']' :: rest) :
    readItems (fuel + 1) s = some ([item], rest) := by
  simp [readItems, h, ht]

theorem readItems_more (h : readValue fuel s = some (item, t)) (ht : skipGap t = ',' :: rest) :
    readItems (fuel + 1) s =
      (readItems fuel (skipGap rest)).map fun r => (item :: r.1, r.2) := by
  simp only [readItems, h, ht, Option.bind_eq_bind, Option.bind_some]
  cases readItems fuel (skipGap rest) <;> rfl

theorem readMembers_last (hkey : readString s = some (key, ':' :: ' ' :: t))
    (h : readValue fuel (skipGap t) = some (value, rest)) {rest' : List Char}
    (hrest : skipGap rest = '\x7d' :: rest') :
    readMembers (fuel + 1) ('"' :: s) = some ([(key, value)], rest') := by
  have hcolon : skipGap (':' :: ' ' :: t) = ':' :: ' ' :: t := skipGap_cons rfl _
  have hspace : skipGap (' ' :: t) = skipGap t := rfl
  simp [readMembers, hkey, hcolon, hspace, h, hrest]

theorem readMembers_more (hkey : readString s = some (key, ':' :: ' ' :: t))
    (h : readValue fuel (skipGap t) = some (value, rest)) {rest' : List Char}
    (hrest : skipGap rest = ',' :: rest') :
    readMembers (fuel + 1) ('"' :: s) =
      (readMembers fuel (skipGap rest')).map fun r => ((key, value) :: r.1, r.2) := by
  have hcolon : skipGap (':' :: ' ' :: t) = ':' :: ' ' :: t := skipGap_cons rfl _
  have hspace : skipGap (' ' :: t) = skipGap t := rfl
  simp only [readMembers, hkey, hcolon, hspace, h, hrest, Option.bind_eq_bind, Option.bind_some]
  cases readMembers fuel (skipGap rest') <;> rfl

theorem readValue_array (hs : skipGap s = c :: t) (hc : c ≠ ']') :
    readValue (fuel + 1) ('[' :: s) = (readItems fuel (c :: t)).map fun r => (.array r.1, r.2) := by
  rw [readValue, hs]
  split
  · next h => exact absurd (List.cons.inj h).1 hc
  · rfl

theorem readValue_object (hs : skipGap s = c :: t) (hc : c ≠ '\x7d') :
    readValue (fuel + 1) ('\x7b' :: s) =
      (readMembers fuel (c :: t)).map fun r => (.object r.1, r.2) := by
  rw [readValue, hs]
  split
  · next h => exact absurd (List.cons.inj h).1 hc
  · rfl

theorem readValue_string (hs : readString s = some (key, rest)) :
    readValue (fuel + 1) ('"' :: s) = some (.string key, rest) := by
  rw [readValue, hs]
  rfl

end

/-! ### Texts of values -/

section

variable (level : Nat) (s : List Char)

theorem quote_append (key : String) :
    quote key ++ s = '"' :: (key.toList.flatMap escapeChar ++ '"' :: s) := by
  rw [quote, List.append_assoc]
  rfl

theorem printItems_append (item : Json) (items : List Json) :
    printItems level (item :: items) ++ s =
      ',' :: (newLine level ++ (print level item ++ (printItems level items ++ s))) := by
  simp only [printItems, List.append_assoc, List.cons_append]

theorem printMembers_append (key : String) (value : Json)
    (members : List (Option String × Json)) :
    printMembers level ((some key, value) :: members) ++ s =
      ',' :: (newLine level ++ (quote key ++ ':' :: ' ' :: (print level value ++
        (printMembers level members ++ s)))) := by
  simp only [printMembers, List.append_assoc, List.cons_append, Option.getD_some, List.nil_append]

theorem print_array_append (item : Json) (items : List Json) :
    print level (.array (item :: items)) ++ s =
      '[' :: (newLine (level + 1) ++ (print (level + 1) item ++
        (printItems (level + 1) items ++ (newLine level ++ ']' :: s)))) := by
  simp only [print, List.append_assoc, List.cons_append, List.nil_append]

theorem print_object_append (key : String) (value : Json)
    (members : List (Option String × Json)) :
    print level (.object ((some key, value) :: members)) ++ s =
      '\x7b' :: (newLine (level + 1) ++ (quote key ++ ':' :: ' ' :: (print (level + 1) value ++
        (printMembers (level + 1) members ++ (newLine level ++ '\x7d' :: s))))) := by
  simp only [print, List.append_assoc, List.cons_append, Option.getD_some, List.nil_append]

end

theorem skipGap_print {v : Json} (h : v.Plain) (level : Nat) (rest : List Char) :
    skipGap (print level v ++ rest) = print level v ++ rest := by
  obtain ⟨c, s, hprint, hgap, -⟩ := h.print_eq_cons level
  rw [hprint, List.cons_append, skipGap_cons hgap]

/-! ### Reading values back -/

/-- A value is read back at every level of indentation and before every text. -/
def ReadsBack (v : Json) : Prop :=
  ∀ level fuel rest, (print level v).length ≤ fuel →
    readValue (fuel + 1) (print level v ++ rest) = some (v, rest)

theorem ReadsBack.behindGap {v : Json} (hread : v.ReadsBack) (hplain : v.Plain)
    (level fuel : Nat) (rest : List Char) (hfuel : (print level v).length ≤ fuel) :
    readValue (fuel + 1) (skipGap (print level v ++ rest)) = some (v, rest) := by
  rw [skipGap_print hplain]
  exact hread level fuel rest hfuel

/-- The items of an array are read back up to its closing bracket. -/
theorem readItems_print {level : Nat} {item : Json} {items : List Json} {fuel : Nat}
    {close rest : List Char} (hclose : skipGap close = ']' :: rest)
    (hplain : ∀ v ∈ item :: items, v.Plain) (hread : ∀ v ∈ item :: items, v.ReadsBack)
    (hfuel : (print level item).length + (printItems level items).length ≤ fuel) :
    readItems (fuel + 2) (print level item ++ (printItems level items ++ close)) =
      some (item :: items, rest) := by
  induction items generalizing item fuel with
  | nil => exact readItems_last (hread item (by simp) level fuel _ (by omega)) hclose
  | cons next items ih =>
    have hlength := congrArg List.length (printItems_append level [] next items)
    simp only [List.append_nil, List.length_cons, List.length_append] at hlength
    have hcomma := (congrArg skipGap (printItems_append level close next items)).trans
      (skipGap_cons rfl _)
    rw [readItems_more (hread item (by simp) level fuel _ (by omega)) hcomma, skipGap_newLine,
      skipGap_print (hplain next (by simp))]
    obtain ⟨fuel, rfl⟩ : ∃ f, fuel = f + 1 := Nat.exists_eq_add_of_le' (by omega)
    rw [ih (fun v hv => hplain v (List.mem_cons_of_mem _ hv))
      (fun v hv => hread v (List.mem_cons_of_mem _ hv)) (by omega)]
    rfl

/-- The members of an object are read back up to its closing brace. -/
theorem readMembers_print {level : Nat} {key : String} {value : Json}
    {members : List (Option String × Json)} {fuel : Nat} {close rest : List Char}
    (hclose : skipGap close = '\x7d' :: rest) (hkeys : ∀ m ∈ members, m.1.isSome = true)
    (hplain : ∀ m ∈ (some key, value) :: members, m.2.Plain)
    (hread : ∀ m ∈ (some key, value) :: members, m.2.ReadsBack)
    (hfuel : (print level value).length + (printMembers level members).length ≤ fuel) :
    readMembers (fuel + 2) (quote key ++ ':' :: ' ' :: (print level value ++
      (printMembers level members ++ close))) = some ((some key, value) :: members, rest) := by
  induction members generalizing key value fuel with
  | nil =>
    have hback : value.ReadsBack := hread (some key, value) (by simp)
    have hvalue := hback.behindGap (hplain (some key, value) (by simp)) level fuel close (by omega)
    rw [quote_append]
    exact readMembers_last (readString_escape key _) hvalue hclose
  | cons next members ih =>
    obtain ⟨key', value'⟩ := next
    obtain ⟨key', rfl⟩ : ∃ k, key' = some k :=
      Option.isSome_iff_exists.1 (hkeys (key', value') (by simp))
    have hback : value.ReadsBack := hread (some key, value) (by simp)
    have hvalue := fun s =>
      hback.behindGap (hplain (some key, value) (by simp)) level fuel s (by omega)
    have hlength := congrArg List.length (printMembers_append level [] key' value' members)
    simp only [List.append_nil, List.length_cons, List.length_append] at hlength
    have hcomma := (congrArg skipGap (printMembers_append level close key' value' members)).trans
      (skipGap_cons rfl _)
    rw [quote_append, readMembers_more (readString_escape key _) (hvalue _) hcomma,
      skipGap_newLine, quote_append, skipGap_cons rfl, ← quote_append]
    obtain ⟨fuel, rfl⟩ : ∃ f, fuel = f + 1 := Nat.exists_eq_add_of_le' (by omega)
    rw [ih (fun m hm => hkeys m (List.mem_cons_of_mem _ hm))
      (fun m hm => hplain m (List.mem_cons_of_mem _ hm))
      (fun m hm => hread m (List.mem_cons_of_mem _ hm)) (by omega)]
    rfl

theorem readsBack_array {items : List Json} (hplain : ∀ v ∈ items, v.Plain)
    (hread : ∀ v ∈ items, v.ReadsBack) : (Json.array items).ReadsBack := by
  intro level fuel rest hfuel
  cases items with
  | nil => rfl
  | cons item items =>
    have hlength := congrArg List.length (print_array_append level [] item items)
    simp only [List.append_nil, List.length_cons, List.length_append] at hlength
    obtain ⟨fuel, rfl⟩ : ∃ f, fuel = f + 2 := Nat.exists_eq_add_of_le' (by omega)
    obtain ⟨c, s, hcons, hgap, hc⟩ := (hplain item (by simp)).print_eq_cons (level + 1)
    have hclose : skipGap (newLine level ++ ']' :: rest) = ']' :: rest := by
      rw [skipGap_newLine, skipGap_cons rfl]
    have hskip : ∀ t, skipGap (newLine (level + 1) ++ (print (level + 1) item ++ t)) =
        c :: (s ++ t) := fun t => by
      rw [skipGap_newLine, hcons, List.cons_append, skipGap_cons hgap]
    rw [print_array_append, readValue_array (hskip _) hc, ← List.cons_append, ← hcons,
      readItems_print hclose hplain hread (by omega)]
    rfl

theorem readsBack_object {members : List (Option String × Json)}
    (hkeys : ∀ m ∈ members, m.1.isSome = true) (hplain : ∀ m ∈ members, m.2.Plain)
    (hread : ∀ m ∈ members, m.2.ReadsBack) : (Json.object members).ReadsBack := by
  intro level fuel rest hfuel
  rcases members with _ | ⟨⟨key, value⟩, members⟩
  · rfl
  · obtain ⟨key, rfl⟩ : ∃ k, key = some k :=
      Option.isSome_iff_exists.1 (hkeys (key, value) (by simp))
    have hlength := congrArg List.length (print_object_append level [] key value members)
    simp only [List.append_nil, List.length_cons, List.length_append] at hlength
    obtain ⟨fuel, rfl⟩ : ∃ f, fuel = f + 2 := Nat.exists_eq_add_of_le' (by omega)
    have hclose : skipGap (newLine level ++ '\x7d' :: rest) = '\x7d' :: rest := by
      rw [skipGap_newLine, skipGap_cons rfl]
    have hskip : ∀ t, skipGap (newLine (level + 1) ++ (quote key ++ t)) =
        '"' :: (key.toList.flatMap escapeChar ++ '"' :: t) := fun t => by
      rw [skipGap_newLine, quote_append, skipGap_cons rfl]
    rw [print_object_append, readValue_object (hskip _) (by decide), ← quote_append,
      readMembers_print hclose (fun m hm => hkeys m (List.mem_cons_of_mem _ hm)) hplain hread
        (by omega)]
    rfl

/-- A plain value is read back. -/
theorem Plain.readsBack {v : Json} (h : v.Plain) : v.ReadsBack := by
  induction h with
  | null => exact fun _ _ _ _ => rfl
  | bool b => cases b <;> exact fun _ _ _ _ => rfl
  | text s =>
    intro level fuel rest hfuel
    have hprint : print level (.text s) = quote s := rfl
    rw [hprint, quote_append]
    exact readValue_string (readString_escape s rest)
  | array h ih => exact readsBack_array h ih
  | object hkeys h ih => exact readsBack_object hkeys h ih

/-! ## Texts -/

/-- The text of a plain value with a line feed behind it is read as the value. -/
theorem ofText?_toText {v : Json} (h : v.Plain) : ofText? (toText v ++ "\n") = some v := by
  have hchars : (toText v ++ "\n").toList = print 0 v ++ ['\n'] := by
    rw [String.toList_append, toText, String.toList_ofList]
    rfl
  have hgap : skipGap ['\n'] = [] := rfl
  rw [ofText?, hchars, ofChars?, skipGap_print h, h.readsBack 0 _ _ (by simp; omega),
    Option.bind_eq_bind, Option.bind_some]
  dsimp only
  rw [hgap]
  rfl

end ReferencePages.Json
