import FlatAssembler.Directive
import FlatAssembler.Proofs.CanonicalLine
import FlatAssembler.Proofs.CleanPath
import Mathlib.Data.Bool.AllAny

/-!
# Lines that include a file by its name

A plain name has no character that a line, an argument or a path would take for
something else, and is none of the names by which a directory refers to itself or
to the one above. A name is any bytes, but a line is read by characters, and a byte
that belongs to none comes out as another one. So a name that is well-formed besides
is needed for `includeLine name` to read as an include with this argument
(`parse_includeLine`). Then the quotation marks around it come off again
(`unquote_quotedName`), and what is included is the file of this name next to the
including one (`included?_of_plainName`).
-/

namespace FlatAssembler

/-- Small bytes stand for themselves, and are no part of another character. -/
theorem Text.toNat_of_mem_utf8EncodeChar {c : Char} {b : UInt8} (hb : b.toNat < 128)
    (h : b ∈ String.utf8EncodeChar c) : c.toNat = b.toNat := by
  have hbyte (n : Nat) (hn : b = UInt8.ofNat n) : b.toNat = n % 256 := by
    rw [hn, UInt8.toNat_ofNat']
  have hc : c.val.toNat = c.toNat := rfl
  revert h
  fun_cases String.utf8EncodeChar c with
  | case1 v hv =>
      intro h
      have heq := hbyte _ (List.mem_singleton.mp h)
      omega
  | case2 v hv =>
      simp only [List.mem_cons, List.not_mem_nil, or_false]
      rintro (h | h) <;> have heq := hbyte _ h <;> omega
  | case3 v hv =>
      simp only [List.mem_cons, List.not_mem_nil, or_false]
      rintro (h | h | h) <;> have heq := hbyte _ h <;> omega
  | case4 v hv =>
      simp only [List.mem_cons, List.not_mem_nil, or_false]
      rintro (h | h | h | h) <;> have heq := hbyte _ h <;> omega

theorem Text.mem_of_toUInt8_mem_ofChars {c : Char} {cs : List Char} (hc : c.toNat < 128)
    (h : c.toUInt8 ∈ ofChars cs) : c ∈ cs := by
  have hbyte : c.toUInt8.toNat = c.toNat := by
    rw [← Char.toUInt8_val, UInt32.toNat_toUInt8]
    exact Nat.mod_eq_of_lt (by rw [Char.toNat_val]; omega)
  obtain ⟨d, hd, hmem⟩ := List.mem_flatMap.mp h
  have heq := toNat_of_mem_utf8EncodeChar (by omega) hmem
  have hdc : d = c := Char.toNat_inj.mp (heq.trans hbyte)
  exact hdc ▸ hd

namespace Source

/-- The name names a file of a directory, and its characters can stand between the
quotes of an include line. -/
def IsPlainName (name : Text) : Prop :=
  (∀ c ∈ name.chars, isBlank c = false ∧ c ∉ ['/', ',', '@', '"', '\x27']) ∧
    name ∉ (["", ".", ".."] : List Text)

instance (name : Text) : Decidable (IsPlainName name) :=
  have := List.decidableBAll (fun c => isBlank c = false ∧ c ∉ ['/', ',', '@', '"', '\x27'])
    name.chars
  inferInstanceAs (Decidable (_ ∧ _))

/-- The line that includes a file by its name. -/
def includeLine (name : Text) : Text := Text.concat [".include \"", name, "\""]

/-- The path of the file of this name in the directory of `file`. -/
def neighbour (file name : Text) : Text := Path.join (Path.directory file) name

/-- The argument of the line. -/
def quotedName (name : Text) : Text := Text.concat ["\"", name, "\""]

section Plain

variable {name : Text} (h : IsPlainName name) (hwell : Text.ofChars name.chars = name)
include h

theorem IsPlainName.mem {c : Char} (hc : c ∈ name.chars) :
    isBlank c = false ∧ c ≠ '/' ∧ c ≠ ',' ∧ c ≠ '@' ∧ c ≠ '"' ∧ c ≠ '\x27' := by
  have hchar := h.1 c hc
  simpa using hchar

theorem areWord_quotedName :
    Statement.AreWord [','] ('"' :: (name.chars ++ ['"'])) := by
  intro c hc
  rw [List.mem_cons, List.mem_append, List.mem_singleton] at hc
  rcases hc with rfl | hc | rfl
  · decide
  · obtain ⟨hblank, -, hcomma, hat, -⟩ := h.mem hc
    exact ⟨hblank, hat, by simpa using hcomma⟩
  · decide

include hwell

/-- The small bytes of the name are its characters. -/
theorem IsPlainName.mem_of_toUInt8_mem {c : Char} (hc : c.toNat < 128) (hmem : c.toUInt8 ∈ name) :
    c ≠ '/' ∧ c ≠ '"' ∧ c ≠ '\x27' := by
  rw [← hwell] at hmem
  obtain ⟨-, hslash, -, -, hquote, hquote'⟩ := h.mem (Text.mem_of_toUInt8_mem_ofChars hc hmem)
  exact ⟨hslash, hquote, hquote'⟩

omit h in
theorem quotedName_eq : quotedName name = Text.ofChars ('"' :: (name.chars ++ ['"'])) := by
  simp [quotedName, Text.concat, Text.ofString, hwell]

/-- The line is the one that its statement is written as. -/
theorem parse_includeLine :
    Statement.parse (includeLine name) =
      { directive := "include", arguments := [quotedName name] } := by
  have hword : Statement.AreWord [] "include".toList :=
    List.all_iff_forall_prop.mp (by decide)
  have hcanonical : Statement.IsCanonical
      { directive := "include", arguments := [quotedName name] } :=
    { label := Statement.areWord_nil.isWord
      label_start := nofun
      directive := hword.isWord
      arguments := by
        rw [List.forall_mem_singleton, quotedName_eq hwell]
        exact (areWord_quotedName h).isWord
      arguments_eq_nil := nofun
      arguments_ne := by
        rw [quotedName_eq hwell]
        exact nofun }
  have hline : includeLine name =
      Statement.render { directive := "include", arguments := [quotedName name] } := by
    simp [includeLine, Statement.render, quotedName, Text.concat, Text.joinWith, Text.ofString]
  rw [hline, hcanonical.parse_render]

omit h hwell in
theorem unquote_of_isQuote {mark mark' : UInt8} {text : Text} (hmark : Path.isQuote mark = true)
    (hmark' : Path.isQuote mark' = true) (h : ∀ b ∈ text, Path.isQuote b = false) :
    Path.unquote (mark :: (text ++ [mark'])) = text := by
  have hkeep {t : Text} (ht : ∀ b ∈ t, Path.isQuote b = false) :
      t.dropWhile Path.isQuote = t := by
    cases t with
    | nil => rfl
    | cons b rest =>
        apply List.dropWhile_cons_of_neg
        rw [ht b List.mem_cons_self]
        exact Bool.false_ne_true
  rw [Path.unquote, List.dropWhile_cons_of_pos hmark]
  cases text with
  | nil =>
      rw [List.nil_append, List.dropWhile_cons_of_pos hmark']
      rfl
  | cons b rest =>
      have hb : ¬Path.isQuote b = true := by
        rw [h b List.mem_cons_self]
        exact Bool.false_ne_true
      rw [List.cons_append, List.dropWhile_cons_of_neg hb, ← List.cons_append,
        List.reverse_append, List.reverse_singleton, List.singleton_append,
        List.dropWhile_cons_of_pos hmark',
        hkeep fun b hb => h b (List.mem_reverse.mp hb), List.reverse_reverse]

theorem unquote_quotedName : Path.unquote (quotedName name) = name := by
  have hname : quotedName name = '"'.toUInt8 :: (name ++ ['"'.toUInt8]) := rfl
  rw [hname]
  apply unquote_of_isQuote rfl rfl
  intro b hb
  rw [Path.isQuote, Bool.or_eq_false_iff, beq_eq_false_iff_ne, beq_eq_false_iff_ne]
  constructor
  · rintro rfl
    exact (h.mem_of_toUInt8_mem hwell (by decide) hb).2.1 rfl
  · rintro rfl
    exact (h.mem_of_toUInt8_mem hwell (by decide) hb).2.2 rfl

theorem IsPlainName.isName : Path.IsName name := by
  have hslash : Path.slash ∉ name := fun hmem =>
    (h.mem_of_toUInt8_mem hwell (by decide) hmem).1 rfl
  have hother : ∀ other ∈ (["", ".", ".."] : List Text), name ≠ other := by
    rintro other hmem rfl
    exact h.2 hmem
  constructor
  · exact hother "" (by decide)
  · exact hother "." (by decide)
  · exact hother ".." (by decide)
  · exact hslash

theorem directory_neighbour (file : Text) :
    Path.directory (neighbour file name) = Path.directory file :=
  Path.directory_join_directory (h.isName hwell) file

/-- A line that says `.include` with such a name includes the file of this name in
the directory of its own file. -/
theorem included?_of_plainName (file : Text) :
    (Statement.parse (includeLine name)).included? file = some (neighbour file name) := by
  have habs : Path.isAbsolute name = false := by
    rw [Path.isAbsolute, beq_eq_false_iff_ne]
    intro hhead
    exact (h.isName hwell).slash_notMem (List.mem_of_mem_head? hhead)
  have haction : Directive.ofName "include" = .inclusion := by decide
  simp only [parse_includeLine h hwell, Statement.included?, Statement.action, haction,
    Path.ofArgument, unquote_quotedName h hwell, habs, Bool.false_eq_true, if_false, neighbour]

/-- It does nothing else. -/
theorem execute_includeLine (s : Session) :
    s.execute (Statement.parse (includeLine name)) = (s, none) := by
  have haction : Directive.ofName "include" = .inclusion := by decide
  simp [parse_includeLine h hwell, Session.execute, Statement.action, haction,
    Session.arityFailure]

end Plain

end Source

end FlatAssembler
