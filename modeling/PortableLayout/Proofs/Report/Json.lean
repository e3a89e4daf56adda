import Mathlib.Tactic.SplitIfs
import PortableLayout.Report.Json

/-!
# A report is told by its JSON

Different reports have different texts, whatever characters their strings hold. The argument goes up the layout
of the text: a value is written so that its end, and with it the value, can be told from any characters that
follow (`SelfDelimiting`). For an escaped character this is so because it can be read back (`readChar_escapeChar`),
for a string because no escaped character begins with a quote, and for everything above because its parts stand
between fixed characters. What a string holds is never taken for layout.
-/

set_option autoImplicit false

namespace PortableLayout.Report.Json

/-- What was written can be told, and so can its end, whatever characters follow. -/
def SelfDelimiting {α : Type} (write : α → List Char) : Prop :=
  ∀ (a b : α) (rest rest' : List Char), write a ++ rest = write b ++ rest' → a = b ∧ rest = rest'

namespace SelfDelimiting

variable {α β : Type} {write : α → List Char}

/-- What can be read back from the front of any characters is told by them. -/
theorem of_read {read : List Char → Option (α × List Char)}
    (h : ∀ a rest, read (write a ++ rest) = some (a, rest)) : SelfDelimiting write := by
  intro a b rest rest' heq
  have hread := h a rest
  rw [heq, h b rest'] at hread
  obtain ⟨rfl, rfl⟩ := Prod.mk.inj (Option.some.inj hread)
  exact ⟨rfl, rfl⟩

/-- What tells `f a` tells `a`, if `f` keeps different values apart. -/
theorem comap (h : SelfDelimiting write) {f : β → α} (hf : ∀ {a b : β}, f a = f b → a = b) :
    SelfDelimiting fun b => write (f b) := by
  intro a b rest rest' heq
  obtain ⟨hvalue, hrest⟩ := h (f a) (f b) rest rest' heq
  exact ⟨hf hvalue, hrest⟩

/-- A member is told by its value; its name is the same each time. -/
theorem member (h : SelfDelimiting write) (indent : Nat) (name : String) :
    SelfDelimiting fun a => Json.member indent name (write a) := by
  intro a b rest rest' heq
  simp only [Json.member, List.append_assoc, List.append_cancel_left_eq] at heq
  exact h a b rest rest' heq

end SelfDelimiting

/-! ## Strings -/

/-- The number that a lower-case hexadecimal digit stands for. -/
def hexValue (c : Char) : Nat :=
  if c.toNat < 58 then c.toNat - 48 else c.toNat - 87

/-- The code point that a letter after a backslash stands for. -/
def shortEscape (c : Char) : Nat :=
  if c = 'b' then 0x08
  else if c = 't' then 0x09
  else if c = 'n' then 0x0A
  else if c = 'f' then 0x0C
  else if c = 'r' then 0x0D
  else c.toNat

/-- The control character of which four digits are the code point, the first two of them zero. -/
def readDigits : List Char → Option (Char × List Char)
  | _ :: _ :: high :: low :: rest => some (.ofNat (16 * hexValue high + hexValue low), rest)
  | _ => none

/-- What the characters behind a backslash stand for, and what follows. -/
def readEscape : List Char → Option (Char × List Char)
  | [] => none
  | c :: rest => if c = 'u' then readDigits rest else some (.ofNat (shortEscape c), rest)

/-- The first character of what stands inside a string, and what follows. -/
def readChar : List Char → Option (Char × List Char)
  | [] => none
  | c :: rest => if c = '\\' then readEscape rest else some (c, rest)

/-- A hexadecimal digit stands for the number that it was made from. -/
theorem hexValue_hexDigit : ∀ n < 16, hexValue (hexDigit n) = n := by
  decide

/-- Behind a backslash an escape is read. -/
theorem readChar_backslash (rest : List Char) : readChar ('\\' :: rest) = readEscape rest := by
  rw [readChar, if_pos rfl]

/-- A character that is no backslash is read as itself. -/
theorem readChar_plain {c : Char} (h : c ≠ '\\') (rest : List Char) : readChar (c :: rest) = some (c, rest) := by
  rw [readChar, if_neg h]

/-- A letter behind a backslash that is not `u` stands for one code point. -/
theorem readEscape_short {c : Char} (h : c ≠ 'u') (rest : List Char) :
    readEscape (c :: rest) = some (.ofNat (shortEscape c), rest) := by
  rw [readEscape, if_neg h]

/-- A character is told by its code point. -/
theorem ofNat_of_toNat_eq {c : Char} {n : Nat} (h : c.toNat = n) : Char.ofNat n = c := by
  rw [← h, Char.ofNat_toNat]

/-- An escaped character is read back. -/
theorem readChar_escapeChar (c : Char) (rest : List Char) : readChar (escapeChar c ++ rest) = some (c, rest) := by
  have hshort {letter : Char} {n : Nat} (hletter : letter ≠ 'u') (hn : shortEscape letter = n)
      (hc : c.toNat = n) : readChar (['\\', letter] ++ rest) = some (c, rest) := by
    rw [List.cons_append, List.cons_append, List.nil_append, readChar_backslash, readEscape_short hletter, hn,
      ofNat_of_toNat_eq hc]
  unfold escapeChar
  split_ifs with hquote hbackslash h08 h09 h0A h0C h0D hcontrol
  · exact hshort (by decide) rfl (by rw [hquote]; rfl)
  · exact hshort (by decide) rfl (by rw [hbackslash]; rfl)
  · exact hshort (by decide) rfl h08
  · exact hshort (by decide) rfl h09
  · exact hshort (by decide) rfl h0A
  · exact hshort (by decide) rfl h0C
  · exact hshort (by decide) rfl h0D
  · -- The two digits are those of the code point, and both are below sixteen.
    have hhigh := hexValue_hexDigit (c.toNat / 16) (by omega)
    have hlow := hexValue_hexDigit (c.toNat % 16) (by omega)
    have hcode : 16 * hexValue (hexDigit (c.toNat / 16)) + hexValue (hexDigit (c.toNat % 16)) = c.toNat := by
      rw [hhigh, hlow]
      omega
    simp only [List.cons_append, List.nil_append, readChar_backslash, readEscape, readDigits, if_true, hcode,
      Char.ofNat_toNat]
  · exact readChar_plain hbackslash rest

/-- An escaped character can be told from what follows it. -/
theorem selfDelimiting_escapeChar : SelfDelimiting escapeChar :=
  .of_read readChar_escapeChar

/-- The quote that ends a string is no beginning of an escaped character. -/
theorem quote_cons_ne_escapeChar (c : Char) (rest rest' : List Char) :
    '"' :: rest ≠ escapeChar c ++ rest' := by
  intro h
  have hread := readChar_escapeChar c rest'
  rw [← h, readChar_plain (by decide)] at hread
  obtain ⟨rfl, -⟩ := Prod.mk.inj (Option.some.inj hread)
  simp [escapeChar] at h

/-- The characters of a string behind its first quote. -/
def body (cs : List Char) : List Char :=
  cs.flatMap escapeChar ++ ['"']

/-- Nothing left of a string is its closing quote. -/
theorem body_nil_append (rest : List Char) : body [] ++ rest = '"' :: rest := rfl

/-- What is left of a string begins with its next character. -/
theorem body_cons_append (c : Char) (cs rest : List Char) :
    body (c :: cs) ++ rest = escapeChar c ++ (body cs ++ rest) := by
  simp only [body, List.flatMap_cons, List.append_assoc]

/-- What is left of a string, up to its closing quote, can be told from what follows it. -/
theorem selfDelimiting_body : SelfDelimiting body := by
  intro as
  -- Character by character: either both strings end here or both go on with the same one.
  induction as with
  | nil =>
    intro bs rest rest' h
    cases bs with
    | nil => exact ⟨rfl, (List.cons.inj h).2⟩
    | cons b bs =>
      rw [body_nil_append, body_cons_append] at h
      exact absurd h (quote_cons_ne_escapeChar b _ _)
  | cons a as ih =>
    intro bs rest rest' h
    cases bs with
    | nil =>
      rw [body_nil_append, body_cons_append] at h
      exact absurd h.symm (quote_cons_ne_escapeChar a _ _)
    | cons b bs =>
      rw [body_cons_append, body_cons_append] at h
      obtain ⟨rfl, hbody⟩ := selfDelimiting_escapeChar a b _ _ h
      obtain ⟨rfl, hrest⟩ := ih bs rest rest' hbody
      exact ⟨rfl, hrest⟩

/-- A string can be told from what follows it. -/
theorem selfDelimiting_quote : SelfDelimiting quote := by
  intro s t rest rest' h
  obtain ⟨hchars, hrest⟩ := selfDelimiting_body s.toList t.toList rest rest' (List.cons.inj h).2
  exact ⟨String.toList_inj.1 hchars, hrest⟩

/-! ## Values -/

/-- A string or null can be told from what follows it. -/
theorem selfDelimiting_quote? : SelfDelimiting quote? := by
  intro s t rest rest' h
  cases s with
  | none =>
    cases t with
    | none => exact ⟨rfl, List.append_cancel_left h⟩
    | some t => simp [quote?, quote] at h
  | some s =>
    cases t with
    | none => simp [quote?, quote] at h
    | some t =>
      obtain ⟨rfl, hrest⟩ := selfDelimiting_quote s t rest rest' h
      exact ⟨rfl, hrest⟩

/-- A truth value can be told from what follows it. -/
theorem selfDelimiting_bool : SelfDelimiting bool := by
  intro a b rest rest' h
  cases a <;> cases b <;> simp_all [bool]

/-- The name of a role can be told from what follows it. -/
theorem selfDelimiting_role : SelfDelimiting fun r : Role => quote r.id :=
  selfDelimiting_quote.comap Role.id_injective

/-- The text of an entry, member by member. -/
theorem entry_append (e : Entry) (rest : List Char) :
    entry e ++ rest =
      "    \x7b\n".toList ++ (member 6 "role" (quote e.role.id) ++ (",\n".toList ++
        (member 6 "path" (quote? e.path) ++ (",\n".toList ++
          (member 6 "ensured" (bool e.ensured) ++ (",\n".toList ++
            (member 6 "error" (quote? e.error) ++ ("\n    \x7d".toList ++ rest)))))))) := by
  delta entry
  simp only [List.append_assoc]

/-- An entry can be told from what follows it. -/
theorem selfDelimiting_entry : SelfDelimiting entry := by
  intro a b rest rest' h
  rw [entry_append, entry_append] at h
  obtain ⟨hrole, h⟩ := selfDelimiting_role.member 6 "role" a.role b.role _ _ (List.append_cancel_left h)
  obtain ⟨hpath, h⟩ := selfDelimiting_quote?.member 6 "path" a.path b.path _ _ (List.append_cancel_left h)
  obtain ⟨hensured, h⟩ := selfDelimiting_bool.member 6 "ensured" a.ensured b.ensured _ _ (List.append_cancel_left h)
  obtain ⟨herror, h⟩ := selfDelimiting_quote?.member 6 "error" a.error b.error _ _ (List.append_cancel_left h)
  refine ⟨?_, List.append_cancel_left h⟩
  cases a
  cases b
  simp only [Entry.mk.injEq]
  exact ⟨hrole, hpath, hensured, herror⟩

/-- The entries behind the first one, and the end of the list. -/
def laterEntries (es : List Entry) : List Char :=
  es.flatMap (fun e => ",\n".toList ++ entry e) ++ "\n  ]".toList

/-- The entries behind the first one can be told from what follows them. -/
theorem selfDelimiting_laterEntries : SelfDelimiting laterEntries := by
  intro as
  induction as with
  | nil =>
    intro bs rest rest' h
    cases bs with
    | nil => exact ⟨rfl, List.append_cancel_left h⟩
    | cons b bs => simp [laterEntries] at h
  | cons a as ih =>
    intro bs rest rest' h
    cases bs with
    | nil => simp [laterEntries] at h
    | cons b bs =>
      simp only [laterEntries, List.flatMap_cons, List.append_assoc, List.append_cancel_left_eq] at h
      obtain ⟨rfl, hlater⟩ := selfDelimiting_entry a b _ _ h
      rw [← List.append_assoc, ← List.append_assoc] at hlater
      obtain ⟨rfl, hrest⟩ := ih bs rest rest' hlater
      exact ⟨rfl, hrest⟩

/-- The list of entries can be told from what follows it. -/
theorem selfDelimiting_entries : SelfDelimiting entries := by
  intro as bs rest rest' h
  cases as with
  | nil =>
    cases bs with
    | nil => exact ⟨rfl, List.append_cancel_left h⟩
    | cons b bs => simp [entries] at h
  | cons a as =>
    cases bs with
    | nil => simp [entries] at h
    | cons b bs =>
      simp only [entries, List.append_assoc, List.append_cancel_left_eq] at h
      obtain ⟨rfl, hlater⟩ := selfDelimiting_entry a b _ _ h
      rw [← List.append_assoc, ← List.append_assoc] at hlater
      obtain ⟨rfl, hrest⟩ := selfDelimiting_laterEntries as bs rest rest' hlater
      exact ⟨rfl, hrest⟩

/-- The text of a report, member by member. -/
theorem characters_append (r : Report) (rest : List Char) :
    characters r ++ rest =
      "\x7b\n".toList ++ (member 2 "executable_dir" (quote r.executableDir) ++ (",\n".toList ++
        (member 2 "base_dir" (quote r.baseDir) ++ (",\n".toList ++
          (member 2 "entries" (entries r.entries) ++ ("\n\x7d".toList ++ rest)))))) := by
  delta characters
  simp only [List.append_assoc]

/-- A whole report can be told from what follows it. -/
theorem selfDelimiting_characters : SelfDelimiting characters := by
  intro a b rest rest' h
  rw [characters_append, characters_append] at h
  obtain ⟨hexe, h⟩ := selfDelimiting_quote.member 2 "executable_dir" a.executableDir b.executableDir _ _
    (List.append_cancel_left h)
  obtain ⟨hbase, h⟩ := selfDelimiting_quote.member 2 "base_dir" a.baseDir b.baseDir _ _ (List.append_cancel_left h)
  obtain ⟨hentries, h⟩ := selfDelimiting_entries.member 2 "entries" a.entries b.entries _ _
    (List.append_cancel_left h)
  refine ⟨?_, List.append_cancel_left h⟩
  cases a
  cases b
  simp only [Report.mk.injEq]
  exact ⟨hexe, hbase, hentries⟩

end PortableLayout.Report.Json

namespace PortableLayout.Report

/-- **The JSON of a report loses nothing.** Two reports have one text only if they are equal, whatever their
strings hold. -/
theorem toJson_eq_iff (r r' : Report) : r.toJson = r'.toJson ↔ r = r' := by
  constructor
  · intro h
    have hcharacters : Json.characters r ++ [] = Json.characters r' ++ [] := by
      rw [String.ofList_injective h]
    exact (Json.selfDelimiting_characters r r' [] [] hcharacters).1
  · rintro rfl
    rfl

end PortableLayout.Report
