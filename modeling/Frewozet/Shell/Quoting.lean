import Frewozet.Shell.Parser

/-!
# Words in quotes

What is typed for a list of words comes back from `shell_tokenize` as that list.

* `Spells` — a line that spells a list of words, each in quotes or bare.
* `Spells.words` — **the words of the line are that list**.
* `Joined` — the words one after the other, wrapped in something, with gaps between them.
* `quoting_round_trip` — words in quotes come back from every way of joining them, and bare
  ones from every way of joining them by blanks.
-/

namespace Frewozet

/-- A text in quotes. -/
def quoted (t : List U8) : List U8 := QUOTE :: (t ++ [QUOTE])

/-- A run of blanks, which may be empty. -/
def Blanks (gap : List U8) : Prop := ∀ c ∈ gap, isBlank c

/-- A text that can stand without quotes. -/
structure Bare (t : List U8) : Prop where
  nonempty : t ≠ []
  noBlank : ∀ c ∈ t, ¬ isBlank c
  noQuote : t.head? ≠ some QUOTE

/-- The line spells the words: each of them stands behind a run of blanks, in quotes or
bare, and what follows a bare one begins with a blank. -/
inductive Spells : List (List U8) → List U8 → Prop where
  | nil {gap : List U8} (hgap : Blanks gap) : Spells [] gap
  | quoted {gap t s : List U8} {ts : List (List U8)} (hgap : Blanks gap) (ht : QUOTE ∉ t)
      (h : Spells ts s) : Spells (t :: ts) (gap ++ (quoted t ++ s))
  | bare {gap t s : List U8} {ts : List (List U8)} (hgap : Blanks gap) (ht : Bare t)
      (hend : ∀ c u, s = c :: u → isBlank c) (h : Spells ts s) :
      Spells (t :: ts) (gap ++ (t ++ s))

section

variable {gap t s : List U8} {ts : List (List U8)} {c : U8} {p : Nat}

theorem Blanks.nil : Blanks [] := fun _ hc => absurd hc List.not_mem_nil

theorem Blanks.append {gap' : List U8} (h : Blanks gap) (h' : Blanks gap') :
    Blanks (gap ++ gap') := by
  intro c hc
  rcases List.mem_append.1 hc with hc | hc
  · exact h c hc
  · exact h' c hc

/-! ## One word -/

/-- A blank before the words only moves them. -/
theorem wordsFrom_skip (hc : isBlank c) : wordsFrom p (c :: s) = wordsFrom (p + 1) s := by
  have hskip : (c :: s).dropWhile isBlank = s.dropWhile isBlank := by
    rw [List.dropWhile_cons, if_pos hc]
  cases h : s.dropWhile isBlank with
  | nil => rw [wordsFrom_blank h, wordsFrom_blank (hskip.trans h)]
  | cons d rest =>
    have hplace : p + ((c :: s).takeWhile isBlank).length =
        p + 1 + (s.takeWhile isBlank).length := by
      rw [List.takeWhile_cons, if_pos hc, List.length_cons]
      omega
    rw [wordsFrom_word h, wordsFrom_word (hskip.trans h), hplace]

/-- The character behind a word may be skipped, for it is a blank. -/
theorem wordsFrom_behind (hend : ∀ c u, s = c :: u → isBlank c) :
    wordsFrom (p + 1) (s.drop 1) = wordsFrom p s := by
  cases s with
  | nil => rw [List.drop_nil, wordsFrom_blank rfl, wordsFrom_blank rfl]
  | cons c u => exact (wordsFrom_skip (hend c u rfl)).symm

theorem dropWhile_blanks (hgap : Blanks gap) (hc : ¬ isBlank c) :
    (gap ++ c :: s).dropWhile isBlank = c :: s := by
  rw [List.dropWhile_append_of_pos hgap, List.dropWhile_cons, if_neg hc]

/-- A word in quotes ends at the second quote. -/
theorem wordAt_quoted (k : Nat) (ht : QUOTE ∉ t) :
    (wordAt k QUOTE (t ++ QUOTE :: s)).text = t ∧ behind QUOTE (t ++ QUOTE :: s) = QUOTE :: s := by
  have hinside : ∀ c ∈ t, !decide (c = QUOTE) := by
    intro c hc
    have hne : c ≠ QUOTE := fun heq => ht (heq ▸ hc)
    simpa using hne
  constructor
  · rw [wordAt, if_pos rfl, List.takeWhile_append_of_pos hinside]
    simp
  · rw [behind, if_pos rfl, List.dropWhile_append_of_pos hinside]
    simp

/-- A bare word ends at the blank behind it. -/
theorem wordAt_bare (k : Nat) (hc : c ≠ QUOTE) (ht : ∀ d ∈ t, ¬ isBlank d)
    (hend : ∀ d u, s = d :: u → isBlank d) :
    (wordAt k c (t ++ s)).text = c :: t ∧ behind c (t ++ s) = s := by
  have hinside : ∀ d ∈ t, !isBlank d := fun d hd => by simpa using ht d hd
  constructor
  · rw [wordAt, if_neg hc, List.takeWhile_append_of_pos hinside]
    cases s with
    | nil => simp
    | cons d u => simp [hend d u rfl]
  · rw [behind, if_neg hc, List.dropWhile_append_of_pos hinside]
    cases s with
    | nil => rfl
    | cons d u => simp [hend d u rfl]

/-! ## A line -/

/-- **The words of a line** are the ones that it spells. -/
theorem Spells.words (h : Spells ts s) : ∀ p, (wordsFrom p s).map Word.text = ts := by
  induction h with
  | nil hgap =>
    intro p
    rw [wordsFrom_blank (List.dropWhile_eq_nil_iff.2 hgap), List.map_nil]
  | @quoted gap t s ts hgap ht h ih =>
    intro p
    have hstart : (gap ++ (Frewozet.quoted t ++ s)).dropWhile isBlank =
        QUOTE :: (t ++ QUOTE :: s) := by
      rw [Frewozet.quoted, List.cons_append, dropWhile_blanks hgap (by decide), List.append_assoc,
        List.singleton_append]
    obtain ⟨htext, hbehind⟩ :=
      wordAt_quoted (p + ((gap ++ (Frewozet.quoted t ++ s)).takeWhile isBlank).length) (s := s) ht
    rw [wordsFrom_word hstart, List.map_cons, htext, hbehind, List.drop_one, List.tail_cons, ih]
  | @bare gap t s ts hgap ht hend h ih =>
    intro p
    obtain ⟨c, t, rfl⟩ := List.exists_cons_of_ne_nil ht.nonempty
    have hc : c ≠ QUOTE := fun heq => ht.noQuote (by rw [heq, List.head?_cons])
    have hstart : (gap ++ (c :: t ++ s)).dropWhile isBlank = c :: (t ++ s) :=
      dropWhile_blanks hgap (ht.noBlank c List.mem_cons_self)
    obtain ⟨htext, hbehind⟩ :=
      wordAt_bare (p + ((gap ++ (c :: t ++ s)).takeWhile isBlank).length) hc
        (fun d hd => ht.noBlank d (List.mem_cons_of_mem c hd)) hend
    rw [wordsFrom_word hstart, List.map_cons, htext, hbehind, wordsFrom_behind hend, ih]

theorem Spells.blanks (hgap : Blanks gap) (h : Spells ts s) : Spells ts (gap ++ s) := by
  cases h with
  | nil hgap' => exact .nil (hgap.append hgap')
  | quoted hgap' ht h =>
    rw [← List.append_assoc]
    exact .quoted (hgap.append hgap') ht h
  | bare hgap' ht hend h =>
    rw [← List.append_assoc]
    exact .bare (hgap.append hgap') ht hend h

/-! ## Joining -/

/-- The words one after the other, each of them wrapped, with gaps between them. -/
inductive Joined (wrap : List U8 → List U8) (Gap : List U8 → Prop) :
    List (List U8) → List U8 → Prop where
  | nil : Joined wrap Gap [] []
  | single (t : List U8) : Joined wrap Gap [t] (wrap t)
  | cons {gap t t' s : List U8} {ts : List (List U8)} (hgap : Gap gap)
      (h : Joined wrap Gap (t' :: ts) s) : Joined wrap Gap (t :: t' :: ts) (wrap t ++ gap ++ s)

/-- A gap that keeps bare words apart. -/
def Apart (gap : List U8) : Prop := gap ≠ [] ∧ Blanks gap

theorem Joined.spells_quoted (h : Joined quoted Blanks ts s) (hts : ∀ t ∈ ts, QUOTE ∉ t) :
    Spells ts s := by
  induction h with
  | nil => exact .nil .nil
  | single t =>
    have hline : Spells [t] ([] ++ (quoted t ++ [])) :=
      .quoted .nil (hts t List.mem_cons_self) (.nil .nil)
    rwa [List.nil_append, List.append_nil] at hline
  | cons hgap h ih =>
    have hrest := (ih fun t ht => hts t (List.mem_cons_of_mem _ ht)).blanks hgap
    rw [List.append_assoc]
    exact .quoted .nil (hts _ List.mem_cons_self) hrest

theorem Joined.spells_bare (h : Joined id Apart ts s) (hts : ∀ t ∈ ts, Bare t) : Spells ts s := by
  induction h with
  | nil => exact .nil .nil
  | single t =>
    have hend : ∀ c u, [] = c :: u → isBlank c :=
      fun c u hcons => absurd hcons (List.cons_ne_nil c u).symm
    have hline : Spells [t] ([] ++ (t ++ [])) :=
      .bare .nil (hts t List.mem_cons_self) hend (.nil .nil)
    rwa [List.nil_append, List.append_nil] at hline
  | @cons gap t t' s ts hgap h ih =>
    have hrest := (ih fun t ht => hts t (List.mem_cons_of_mem _ ht)).blanks hgap.2
    have hend : ∀ c u, gap ++ s = c :: u → isBlank c := by
      intro c u hcons
      obtain ⟨d, gap, rfl⟩ := List.exists_cons_of_ne_nil hgap.1
      rw [← (List.cons.inj hcons).1]
      exact hgap.2 d List.mem_cons_self
    rw [List.append_assoc]
    exact .bare .nil (hts _ List.mem_cons_self) hend hrest

variable {n maxArgs : Nat} {input : CharArray n}

/-- What a line spells is what `shell_tokenize` returns, if there is room for it. -/
theorem Spells.tokenize (hline : Spells ts s) (h : input.Holds s) (hroom : ts.length ≤ maxArgs) :
    ∃ argv input', shellTokenize input maxArgs = some (argv, input') ∧
      argv.mapM input'.stringAt = some ts := by
  obtain ⟨input', hrun, hcut⟩ := shellTokenize_words maxArgs h
  refine ⟨_, input', hrun, hcut.mapM.trans ?_⟩
  rw [List.map_take, lineWords, hline.words, List.take_of_length_le hroom]

/-- **Quoting round trip.**  Words without quotes, each of them put in quotes and joined by
runs of blanks or by nothing, come back as they are; so do words that need no quotes, joined
by blanks. -/
theorem quoting_round_trip (h : input.Holds s) (hroom : ts.length ≤ maxArgs)
    (hline : Joined quoted Blanks ts s ∧ (∀ t ∈ ts, QUOTE ∉ t) ∨
      Joined id Apart ts s ∧ ∀ t ∈ ts, Bare t) :
    ∃ argv input', shellTokenize input maxArgs = some (argv, input') ∧
      argv.mapM input'.stringAt = some ts := by
  rcases hline with ⟨hjoined, hts⟩ | ⟨hjoined, hts⟩
  · exact (hjoined.spells_quoted hts).tokenize h hroom
  · exact (hjoined.spells_bare hts).tokenize h hroom

/-- `"a b"""`, and `a` and `b"` with two blanks between them. -/
theorem quoting_round_trip_two :
    (∃ argv input', shellTokenize (CharArray.ofText (chars "\"a b\"\"\"") : CharArray 16) 16 =
        some (argv, input') ∧ argv.mapM input'.stringAt = some [chars "a b", []]) ∧
      ∃ argv input', shellTokenize (CharArray.ofText (chars "a  b\"") : CharArray 16) 16 =
        some (argv, input') ∧ argv.mapM input'.stringAt = some [chars "a", chars "b\""] := by
  have hquoted : Joined quoted Blanks [chars "a b", []] (chars "\"a b\"\"\"") :=
    @Joined.cons _ _ [] (chars "a b") [] _ [] .nil (.single [])
  have hbare : Joined id Apart [chars "a", chars "b\""] (chars "a  b\"") :=
    @Joined.cons _ _ [SPACE, SPACE] (chars "a") (chars "b\"") _ []
      ⟨by decide, by unfold Blanks; decide⟩ (.single (chars "b\""))
  have hwords : ∀ t ∈ [chars "a", chars "b\""], Bare t := by
    rw [List.forall_mem_cons, List.forall_mem_singleton]
    exact ⟨⟨by decide, by decide, by decide⟩, ⟨by decide, by decide, by decide⟩⟩
  exact ⟨quoting_round_trip (CharArray.ofText_holds (by decide) (by decide)) (by decide)
      (.inl ⟨hquoted, by decide⟩),
    quoting_round_trip (CharArray.ofText_holds (by decide) (by decide)) (by decide)
      (.inr ⟨hbare, hwords⟩)⟩

end

end Frewozet
