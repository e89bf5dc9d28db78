import Frewozet.Base.CString
import Frewozet.Terminal.Code
import Mathlib.Data.List.TakeWhile

/-!
# `shell_parser.c`

`shell_tokenize` cuts a line into words in place: it puts a NUL behind each of them and
keeps where they start.

* `shellTokenize` — the code, on an array of characters.
* `lineWords` — the words of a line, on lists.
* `Round` — what a round of the loop does with the first word of the rest.
* `shell_tokenize_exact` — **it takes the first `max_args` words**, cut out in place.
* `shellTokenize_word_iff` — there is a word exactly if the line is not blank.
-/

namespace Frewozet

def TAB : U8 := 0x09
def QUOTE : U8 := 0x22

/-- `*p == ' ' || *p == '\t'`. -/
def isBlank (c : U8) : Bool := c = SPACE || c = TAB

/-- The outer loop of `shell_tokenize`: `p` is where it stands, `argv` what it has stored
so far.  Each round goes at least one character on. -/
def tokenizeLoop {n : Nat} (maxArgs : Nat) :
    Nat → Nat → List Nat → CharArray n → Option (List Nat × CharArray n)
  | 0, _, _, _ => none
  | room + 1, p, argv, input => do
    let c ← input.load p
    if c = 0 then some (argv, input) else
      let p ← input.scan (fun c => !isBlank c) n p
      let c ← input.load p
      if c = 0 then some (argv, input)
      else if argv.length ≥ maxArgs then some (argv, input)
      else if c = QUOTE then
        let p := p + 1
        let argv := argv ++ [p]
        let p ← input.scan (fun c => c = 0 || c = QUOTE) n p
        let c ← input.load p
        if c = QUOTE then
          let input ← input.store p 0
          tokenizeLoop maxArgs room (p + 1) argv input
        else tokenizeLoop maxArgs room p argv input
      else
        let argv := argv ++ [p]
        let p ← input.scan (fun c => c = 0 || isBlank c) n p
        let c ← input.load p
        if c ≠ 0 then
          let input ← input.store p 0
          tokenizeLoop maxArgs room (p + 1) argv input
        else tokenizeLoop maxArgs room p argv input

/-- `shell_tokenize`: the words' places, `argc` of them, and the array with the NULs. -/
def shellTokenize {n : Nat} (input : CharArray n) (maxArgs : Nat) :
    Option (List Nat × CharArray n) :=
  tokenizeLoop maxArgs n 0 [] input

/-! ## The words of a line -/

/-- A word: where its text starts, and whether it stands in quotes. -/
structure Word where
  start : Nat
  text : List U8
  quoted : Bool

namespace Word

/-- The place behind the text. -/
def finish (w : Word) : Nat := w.start + w.text.length

/-- The character that ends the text: the closing quote, or the blank behind it. -/
def Ends (w : Word) (c : U8) : Prop := if w.quoted then c = QUOTE else isBlank c

end Word

/-- The first word of a text that begins, at the place `k`, with `c`: up to the next quote if
`c` is one, and up to the next blank if not. -/
def wordAt (k : Nat) (c : U8) (rest : List U8) : Word :=
  if c = QUOTE then ⟨k + 1, rest.takeWhile (fun c => !decide (c = QUOTE)), true⟩
  else ⟨k, c :: rest.takeWhile (fun c => !isBlank c), false⟩

/-- What is left from the character on that ends this word. -/
def behind (c : U8) (rest : List U8) : List U8 :=
  if c = QUOTE then rest.dropWhile (fun c => !decide (c = QUOTE))
  else rest.dropWhile (fun c => !isBlank c)

theorem length_behind_le (c : U8) (rest : List U8) : (behind c rest).length ≤ rest.length := by
  unfold behind
  split <;> exact List.length_dropWhile_le _ _

/-- The words of the text `s`, whose first character is at the place `p`. -/
def wordsFrom (p : Nat) (s : List U8) : List Word :=
  match h : s.dropWhile isBlank with
  | [] => []
  | c :: rest =>
    let w := wordAt (p + (s.takeWhile isBlank).length) c rest
    w :: wordsFrom (w.finish + 1) ((behind c rest).drop 1)
termination_by s.length
decreasing_by
  have hblanks := List.length_dropWhile_le isBlank s
  have hbehind := length_behind_le c rest
  rw [h, List.length_cons] at hblanks
  rw [List.length_drop]
  omega

/-- The words of a line. -/
def lineWords (s : List U8) : List Word := wordsFrom 0 s

section

variable {p : Nat} {s rest : List U8} {c : U8}

theorem wordsFrom_blank (h : s.dropWhile isBlank = []) : wordsFrom p s = [] := by
  rw [wordsFrom]
  split
  · rfl
  · rename_i hcons
    rw [h] at hcons
    cases hcons

theorem wordsFrom_word (h : s.dropWhile isBlank = c :: rest) :
    wordsFrom p s = wordAt (p + (s.takeWhile isBlank).length) c rest ::
      wordsFrom ((wordAt (p + (s.takeWhile isBlank).length) c rest).finish + 1)
        ((behind c rest).drop 1) := by
  rw [wordsFrom]
  split
  · rename_i hnil
    rw [h] at hnil
    cases hnil
  · rename_i hcons
    rw [h] at hcons
    obtain ⟨rfl, rfl⟩ := List.cons.inj hcons
    rfl

/-- There is a word exactly if the line is not blank. -/
theorem wordsFrom_ne_nil_iff : wordsFrom p s ≠ [] ↔ ∃ c ∈ s, ¬ isBlank c := by
  cases h : s.dropWhile isBlank with
  | nil =>
    rw [wordsFrom_blank h]
    rw [List.dropWhile_eq_nil_iff] at h
    simpa using h
  | cons c rest =>
    rw [wordsFrom_word h]
    refine iff_of_true (List.cons_ne_nil _ _) ?_
    by_contra hall
    have hnil : s.dropWhile isBlank = [] :=
      List.dropWhile_eq_nil_iff.2 fun c hc => by_contra fun hb => hall ⟨c, hc, hb⟩
    rw [h] at hnil
    cases hnil

/-- A word starts at its first character or behind its quote, and what is behind it is the
rest of the text. -/
theorem wordAt_span (k : Nat) (c : U8) (rest : List U8) : k ≤ (wordAt k c rest).start ∧
    (wordAt k c rest).finish + (behind c rest).length = k + 1 + rest.length := by
  have hquote := congrArg List.length
    (List.takeWhile_append_dropWhile (p := fun c => !decide (c = QUOTE)) (l := rest))
  have hplain := congrArg List.length
    (List.takeWhile_append_dropWhile (p := fun c => !isBlank c) (l := rest))
  rw [List.length_append] at hquote hplain
  unfold wordAt behind Word.finish
  split <;> dsimp only
  · exact ⟨Nat.le_succ k, by omega⟩
  · exact ⟨Nat.le_refl k, by rw [List.length_cons]; omega⟩

/-- The words lie in their text, each of them behind the one before it. -/
theorem wordsFrom_inside (p : Nat) (s : List U8) :
    (∀ w ∈ wordsFrom p s, p ≤ w.start ∧ w.finish ≤ p + s.length) ∧
      (wordsFrom p s).Pairwise fun w v => w.finish < v.start := by
  induction p, s using wordsFrom.induct with
  | case1 p s h =>
    rw [wordsFrom_blank h]
    exact ⟨fun w hw => absurd hw List.not_mem_nil, List.Pairwise.nil⟩
  | case2 p s c rest h first ih =>
    rw [wordsFrom_word h]
    have hspan : p + (s.takeWhile isBlank).length ≤ first.start ∧
        first.finish + (behind c rest).length = p + (s.takeWhile isBlank).length + 1 +
          rest.length := wordAt_span _ c rest
    have hsplit := congrArg List.length
      (List.takeWhile_append_dropWhile (p := isBlank) (l := s))
    rw [List.length_append, h, List.length_cons] at hsplit
    obtain ⟨hinside, hsorted⟩ := ih
    rw [List.length_drop] at hinside
    refine ⟨?_, List.pairwise_cons.2 ⟨fun v hv => (hinside v hv).1, hsorted⟩⟩
    intro v hv
    rcases List.mem_cons.1 hv with rfl | hv
    · change p ≤ first.start ∧ first.finish ≤ p + s.length
      omega
    · -- a word behind the first needs a character behind it
      have hbehind : (behind c rest).length ≠ 0 := fun hzero => by
        rw [List.eq_nil_of_length_eq_zero hzero, List.drop_nil, wordsFrom_blank rfl] at hv
        cases hv
      obtain ⟨h1, h2⟩ := hinside v hv
      have h3 : first.start ≤ first.finish := Nat.le_add_right _ _
      exact ⟨by omega, by omega⟩

end

/-! ## What `shell_tokenize` does -/

section

variable {n : Nat}

/-- The words have been cut out: each can be read where it starts, and nothing is changed
but the characters that end them, which are NULs now. -/
structure Cut (ws : List Word) (input input' : CharArray n) : Prop where
  reads : ∀ w ∈ ws, input'.stringAt w.start = some w.text
  only : ∀ q, input'.load q ≠ input.load q → input'.load q = some 0 ∧
    ∃ w ∈ ws, q = w.finish ∧ ∃ c, input.load q = some c ∧ w.Ends c

variable {w : Word} {ws : List Word} {input input₁ input₂ : CharArray n}

theorem Cut.nil : Cut [] input input :=
  ⟨fun _ hw => absurd hw List.not_mem_nil, fun _ hq => absurd rfl hq⟩

/-- The words behind a word are cut out without changing it. -/
theorem Cut.cons (hword : input₁.HoldsAt w.start w.text)
    (honly : ∀ q, input₁.load q ≠ input.load q →
      input₁.load q = some 0 ∧ q = w.finish ∧ ∃ c, input.load q = some c ∧ w.Ends c)
    (hlater : ∀ v ∈ ws, w.finish < v.start) (h : Cut ws input₁ input₂) :
    Cut (w :: ws) input input₂ := by
  have hkept : ∀ q ≤ w.finish, input₂.load q = input₁.load q := by
    intro q hq
    by_contra hne
    obtain ⟨-, v, hv, rfl, -⟩ := h.only q hne
    have h1 := hlater v hv
    have h2 : v.start ≤ v.finish := Nat.le_add_right _ _
    omega
  refine ⟨fun v hv => ?_, fun q hq => ?_⟩
  · rcases List.mem_cons.1 hv with rfl | hv
    · exact (hword.congr fun q _ hq => hkept q hq).stringAt
    · exact h.reads v hv
  · by_cases hlate : input₂.load q = input₁.load q
    · rw [hlate] at hq ⊢
      obtain ⟨hnul, hfinish⟩ := honly q hq
      exact ⟨hnul, w, List.mem_cons_self, hfinish⟩
    · obtain ⟨hnul, v, hv, rfl, c, hc, hends⟩ := h.only q hlate
      have hsame : input₁.load v.finish = input.load v.finish := by
        by_contra hne
        have h1 := hlater v hv
        have h2 : v.start ≤ v.finish := Nat.le_add_right _ _
        have h3 := (honly _ hne).2.1
        omega
      exact ⟨hnul, v, List.mem_cons_of_mem w hv, rfl, c, hsame ▸ hc, hends⟩

/-- The text of the first word stands in the array, with what is behind it. -/
theorem holdsAt_wordAt {k : Nat} {c : U8} {rest : List U8} (h : input.HoldsAt k (c :: rest)) :
    input.HoldsAt (wordAt k c rest).start ((wordAt k c rest).text ++ behind c rest) := by
  unfold wordAt behind
  split
  · rw [List.takeWhile_append_dropWhile]
    exact h.2.2
  · rw [List.cons_append, List.takeWhile_append_dropWhile]
    exact h

/-- What is behind it begins with the character that ends it. -/
theorem ends_of_behind {k : Nat} {c d : U8} {rest u : List U8} (h : behind c rest = d :: u) :
    (wordAt k c rest).Ends d := by
  have hhead : ∀ p : U8 → Bool, rest.dropWhile (fun c => !p c) = d :: u → p d := by
    intro p hp
    have := List.head?_dropWhile_not (fun c => !p c) rest
    rw [hp] at this
    simpa using this
  unfold behind at h
  unfold wordAt Word.Ends
  split
  · rename_i hquote
    rw [if_pos hquote] at h
    exact of_decide_eq_true (hhead _ h)
  · rename_i hquote
    rw [if_neg hquote] at h
    exact hhead _ h

variable (maxArgs : Nat)

/-- What a round does with the text `s`, which stands at `p`: nothing, for it is blank or
there is no room in `argv`, or it takes the first word, which ends with the line or at a
character that becomes a NUL. -/
inductive Round (p : Nat) (s : List U8) (argv : List Nat) (input : CharArray n)
    (next : Nat → List Nat → CharArray n → Option (List Nat × CharArray n)) :
    Option (List Nat × CharArray n) → Prop where
  | blank (hwords : wordsFrom p s = []) : Round p s argv input next (some (argv, input))
  | full (hfull : maxArgs ≤ argv.length) : Round p s argv input next (some (argv, input))
  | last {w : Word} (hroom : argv.length < maxArgs) (hwords : wordsFrom p s = [w])
      (hword : input.HoldsAt w.start w.text) :
      Round p s argv input next (next w.finish (argv ++ [w.start]) input)
  | word {w : Word} {c : U8} {u : List U8} {input₁ : CharArray n}
      (hroom : argv.length < maxArgs) (hwords : wordsFrom p s = w :: wordsFrom (w.finish + 1) u)
      (hu : u.length < s.length) (hc : input.load w.finish = some c) (hends : w.Ends c)
      (hload : ∀ q, input₁.load q = if q = w.finish then some 0 else input.load q)
      (hword : input₁.HoldsAt w.start w.text) (hrest : input₁.HoldsAt (w.finish + 1) u) :
      Round p s argv input next (next (w.finish + 1) (argv ++ [w.start]) input₁)

/-- The first word has been found: what is left of the round closes it. -/
theorem Round.close {p : Nat} {s b : List U8} {argv : List Nat} {input : CharArray n}
    (next : Nat → List Nat → CharArray n → Option (List Nat × CharArray n)) {w : Word}
    (hroom : argv.length < maxArgs)
    (hwords : wordsFrom p s = w :: wordsFrom (w.finish + 1) (b.drop 1))
    (hb : b.length < s.length) (hends : ∀ d u, b = d :: u → w.Ends d)
    (hstands : input.HoldsAt w.start (w.text ++ b)) (closes : U8 → Prop)
    [DecidablePred closes] (hzero : ¬ closes 0) (hcloses : ∀ d, d ≠ 0 → w.Ends d → closes d) :
    Round maxArgs p s argv input next (do
      let c ← input.load w.finish
      if closes c then do
        let input ← input.store w.finish 0
        next (w.finish + 1) (argv ++ [w.start]) input
      else next w.finish (argv ++ [w.start]) input) := by
  have hend : input.HoldsAt w.finish b := hstands.append
  cases b with
  | nil =>
    rw [show input.load w.finish = some 0 from hend]
    dsimp only [bind, Option.bind]
    rw [if_neg hzero]
    rw [List.append_nil] at hstands
    exact .last hroom (hwords.trans (by rw [List.drop_nil, wordsFrom_blank rfl])) hstands
  | cons d u =>
    have hd := hends d u rfl
    obtain ⟨input₁, hstore, hload⟩ := input.store_of_lt (CharArray.lt_of_load hend.1) 0
    rw [hend.1]
    dsimp only [bind, Option.bind]
    rw [if_pos (hcloses d hend.2.1 hd), hstore]
    refine .word hroom hwords (Nat.lt_of_succ_lt hb) hend.1 hd hload (hstands.cut hload) ?_
    refine hend.2.2.congr fun q hq _ => ?_
    rw [hload, if_neg (by omega)]

theorem tokenizeLoop_round {p : Nat} {s : List U8} {input : CharArray n}
    (h : input.HoldsAt p s) (room : Nat) (argv : List Nat) :
    Round maxArgs p s argv input (tokenizeLoop maxArgs room)
      (tokenizeLoop maxArgs (room + 1) p argv input) := by
  rw [tokenizeLoop]
  cases s with
  | nil =>
    rw [show input.load p = some 0 from h]
    exact .blank (wordsFrom_blank rfl)
  | cons a s =>
    have hn := h.room
    rw [h.1]
    dsimp only [bind, Option.bind]
    rw [if_neg h.2.1, h.scan (fun c => !isBlank c) (by decide) (by omega)]
    simp only [Bool.not_not]
    have hlength := List.length_dropWhile_le isBlank (a :: s)
    have hk : input.HoldsAt (p + ((a :: s).takeWhile isBlank).length)
        ((a :: s).dropWhile isBlank) := by
      rw [← List.takeWhile_append_dropWhile (p := isBlank) (l := a :: s)] at h
      exact h.append
    generalize hplace : p + ((a :: s).takeWhile isBlank).length = k at hk
    cases hrest : (a :: s).dropWhile isBlank with
    | nil =>
      rw [hrest] at hk
      rw [show input.load k = some 0 from hk]
      exact .blank (wordsFrom_blank hrest)
    | cons c rest =>
      rw [hrest] at hk hlength
      have hkn := hk.room
      rw [hk.1]
      dsimp only
      rw [if_neg hk.2.1]
      by_cases hfull : argv.length ≥ maxArgs
      · rw [if_pos hfull]
        exact .full hfull
      rw [if_neg hfull]
      have hwords := wordsFrom_word (p := p) hrest
      rw [hplace] at hwords
      have hbehind : (behind c rest).length < (a :: s).length :=
        Nat.lt_of_lt_of_le (Nat.lt_succ_of_le (length_behind_le c rest)) hlength
      have hclose := Round.close maxArgs (tokenizeLoop maxArgs room) (Nat.not_le.1 hfull)
        hwords hbehind (fun d u => ends_of_behind) (holdsAt_wordAt hk)
      rw [List.length_cons] at hkn
      by_cases hquote : c = QUOTE
      · have hw : wordAt k c rest = ⟨k + 1, rest.takeWhile (fun c => !decide (c = QUOTE)), true⟩ :=
          if_pos hquote
        rw [hw] at hclose
        rw [if_pos hquote, hk.2.2.scan_until (fun c => decide (c = QUOTE)) (by omega)]
        exact hclose (· = QUOTE) (by decide) fun d _ hd => hd
      · have hc := List.head?_dropWhile_not isBlank (a :: s)
        rw [hrest] at hc
        have hw : wordAt k c rest = ⟨k, (c :: rest).takeWhile (fun c => !isBlank c), false⟩ := by
          rw [wordAt, if_neg hquote, List.takeWhile_cons, if_pos (by simpa using hc)]
        rw [hw] at hclose
        rw [if_neg hquote, hk.scan_until isBlank (by rw [List.length_cons]; omega)]
        exact hclose (· ≠ 0) (by decide) fun d hd _ => hd

/-- **The loop takes the words**, as long as there is room for them in `argv`. -/
theorem tokenizeLoop_words : ∀ {room p : Nat} {argv : List Nat} {input : CharArray n}
    {s : List U8}, input.HoldsAt p s → s.length < room → ∃ input',
      tokenizeLoop maxArgs room p argv input =
        some (argv ++ ((wordsFrom p s).take (maxArgs - argv.length)).map Word.start, input') ∧
          Cut ((wordsFrom p s).take (maxArgs - argv.length)) input input' := by
  intro room
  induction room with
  | zero => exact fun _ h => absurd h (Nat.not_lt_zero _)
  | succ room ih =>
    intro p argv input s h hroom
    have hround := tokenizeLoop_round maxArgs h room argv
    generalize tokenizeLoop maxArgs (room + 1) p argv input = out at hround
    cases hround with
    | blank hwords =>
      rw [hwords, List.take_nil]
      exact ⟨input, by rw [List.map_nil, List.append_nil], .nil⟩
    | full hfull =>
      rw [Nat.sub_eq_zero_of_le hfull, List.take_zero]
      exact ⟨input, by rw [List.map_nil, List.append_nil], .nil⟩
    | @last w hargv hwords hword =>
      have hs : s.length ≠ 0 := fun hzero => by
        rw [List.eq_nil_of_length_eq_zero hzero, wordsFrom_blank rfl] at hwords
        cases hwords
      obtain ⟨input', hrun, hcut⟩ := @ih _ (argv ++ [w.start]) _ []
        (show input.HoldsAt w.finish [] from hword.nul) (by rw [List.length_nil]; omega)
      rw [wordsFrom_blank rfl, List.take_nil] at hrun hcut
      rw [hwords, List.take_of_length_le (by rw [List.length_singleton]; omega)]
      exact ⟨input', by simpa using hrun, hcut.cons hword (fun q hq => absurd rfl hq)
        fun v hv => absurd hv List.not_mem_nil⟩
    | @word w c u input₁ hargv hwords hu hc hends hload hword hrest =>
      obtain ⟨input', hrun, hcut⟩ := @ih _ (argv ++ [w.start]) _ _ hrest (by omega)
      obtain ⟨m, hm⟩ := Nat.exists_eq_succ_of_ne_zero (Nat.sub_ne_zero_of_lt hargv)
      have hm' : maxArgs - (argv ++ [w.start]).length = m := by
        rw [List.length_append, List.length_singleton]
        omega
      rw [hm'] at hrun hcut
      rw [hm, hwords, List.take_succ_cons]
      refine ⟨input', by simpa using hrun, hcut.cons hword (fun q hq => ?_) fun v hv => ?_⟩
      · have heq : q = w.finish := by
          by_contra hne
          exact hq ((hload q).trans (if_neg hne))
        exact ⟨(hload q).trans (if_pos heq), heq, c, heq ▸ hc, hends⟩
      · exact ((wordsFrom_inside _ u).1 v (List.mem_of_mem_take hv)).1

variable {s : List U8}

theorem shellTokenize_words (h : input.Holds s) : ∃ input',
    shellTokenize input maxArgs = some (((lineWords s).take maxArgs).map Word.start, input') ∧
      Cut ((lineWords s).take maxArgs) input input' :=
  tokenizeLoop_words maxArgs h.holdsAt h.room

/-- The words can be read, as they are in the line. -/
theorem Cut.mapM (h : Cut ws input input₁) :
    (ws.map Word.start).mapM input₁.stringAt = some (ws.map Word.text) := by
  obtain ⟨hreads, -⟩ := h
  induction ws with
  | nil => rfl
  | cons w ws ih =>
    rw [List.map_cons, List.mapM_cons, hreads w List.mem_cons_self,
      ih fun v hv => hreads v (List.mem_cons_of_mem w hv)]
    rfl

/-- **There is a word** exactly if the line is not blank. -/
theorem shellTokenize_word_iff (h : input.Holds s) (hmax : 0 < maxArgs) {argv : List Nat}
    (hrun : shellTokenize input maxArgs = some (argv, input₁)) :
    argv ≠ [] ↔ ∃ c ∈ s, ¬ isBlank c := by
  obtain ⟨input₂, hwords, -⟩ := shellTokenize_words maxArgs h
  obtain ⟨rfl, -⟩ := Prod.mk.inj (Option.some.inj (hrun.symm.trans hwords))
  have hzero : maxArgs ≠ 0 := Nat.ne_of_gt hmax
  rw [← wordsFrom_ne_nil_iff (p := 0)]
  simp [hzero, lineWords]

/-- **`shell_tokenize` takes the words of the line**, the first `max_args` of them: it ends
inside the array, `argv` is where they start, each further on than the one before and none
behind the NUL, and they can be read there afterwards.  Nothing is written but a NUL over
the quote or the blank that ends one of them. -/
theorem shell_tokenize_exact (h : input.Holds s) : ∃ argv input',
    shellTokenize input maxArgs = some (argv, input') ∧
      argv.length ≤ maxArgs ∧
      argv.mapM input'.stringAt = some (((lineWords s).take maxArgs).map Word.text) ∧
      (∀ p ∈ argv, p ≤ s.length) ∧ argv.Pairwise (· < ·) ∧
      ∀ q, input'.load q ≠ input.load q → input'.load q = some 0 ∧
        ∃ w ∈ (lineWords s).take maxArgs, q = w.finish ∧ ∃ c, input.load q = some c ∧ w.Ends c := by
  obtain ⟨input', hrun, hcut⟩ := shellTokenize_words maxArgs h
  obtain ⟨hinside, hsorted⟩ := wordsFrom_inside 0 s
  refine ⟨_, input', hrun, ?_, hcut.mapM, fun p hp => ?_, ?_, hcut.only⟩
  · rw [List.length_map]
    exact List.length_take_le _ _
  · obtain ⟨w, hw, rfl⟩ := List.mem_map.1 hp
    have h1 := (hinside w (List.mem_of_mem_take hw)).2
    have h2 : w.start ≤ w.finish := Nat.le_add_right _ _
    omega
  · refine List.pairwise_map.2 ((hsorted.sublist (List.take_sublist _ _)).imp ?_)
    exact fun hlt => Nat.lt_of_le_of_lt (Nat.le_add_right _ _) hlt

/-- `a "b c"d`, with room for two words. -/
theorem shell_tokenize_exact_quoted : ∃ argv input',
    shellTokenize (CharArray.ofText (chars "a \"b c\"d") : CharArray 16) 2 =
        some (argv, input') ∧
      argv.mapM input'.stringAt = some [chars "a", chars "b c"] := by
  obtain ⟨argv, input', hrun, -, hwords, -⟩ := @shell_tokenize_exact 16
    (CharArray.ofText (chars "a \"b c\"d")) 2 (chars "a \"b c\"d")
    (CharArray.ofText_holds (by decide) (by decide))
  refine ⟨argv, input', hrun, hwords.trans ?_⟩
  have hfirst : wordsFrom 0 (chars "a \"b c\"d") = ⟨0, chars "a", false⟩ ::
      wordsFrom 2 (chars "\"b c\"d") :=
    wordsFrom_word
      (show (chars "a \"b c\"d").dropWhile isBlank = 0x61 :: chars " \"b c\"d" by rfl)
  have hsecond : wordsFrom 2 (chars "\"b c\"d") = ⟨3, chars "b c", true⟩ ::
      wordsFrom 7 (chars "d") :=
    wordsFrom_word
      (show (chars "\"b c\"d").dropWhile isBlank = QUOTE :: chars "b c\"d" by rfl)
  rw [lineWords, hfirst, hsecond]
  rfl

end

end Frewozet
