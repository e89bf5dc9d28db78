import Frewozet.Shell.Refine
import Frewozet.Text.Decimal

/-!
# What the history keeps

* `submitted` — the lines a run of keys submits.
* `kept` — these without the empty ones and without repetitions; `recent` — the last 16.
* `editAll_entries` — the entries of the editor are the recent lines, the newest first.
* `listing` — the calls that print lines, numbered from `-count` to `-1`;
  `shellHistoryPrint_of_holds` — **`shell_history_print` makes them.**
* `history_keeps_recent` — all of it, in every run.
-/

namespace Frewozet

/-! ## The lines -/

/-- A line is kept unless it is empty or the line kept last. -/
def keepLine (lines : List (List U8)) (text : List U8) : List (List U8) :=
  if text = [] ∨ lines.getLast? = some text then lines else lines ++ [text]

/-- The lines kept, in their order. -/
def kept (lines : List (List U8)) : List (List U8) := lines.foldl keepLine []

/-- The last of them, as many as the history has rows. -/
def recent (lines : List (List U8)) : List (List U8) :=
  lines.drop (lines.length - SHELL_HISTORY_SIZE)

/-- The line that a key submits. -/
def Key.submits (key : Key) (e : Editor) : List (List U8) :=
  match key with
  | .char c => if c.1 = NEWLINE then [e.line.text] else []
  | _ => []

/-- The lines that the keys submit, from a state of the editor on. -/
def submitted : List Event → Editor → List (List U8)
  | [], _ => []
  | event :: events, e => event.key.submits e ++ submitted events (event.key.edit e)

theorem recent_reverse (lines : List (List U8)) :
    (recent lines).reverse = lines.reverse.take SHELL_HISTORY_SIZE := by
  rw [List.take_reverse]
  rfl

theorem length_recent (lines : List (List U8)) :
    (recent lines).length = min SHELL_HISTORY_SIZE lines.length := by
  rw [recent, List.length_drop]
  omega

/-- **Recording a line** is keeping it. -/
theorem record_recent (text : List U8) (lines : List (List U8)) :
    record text (recent lines).reverse = (recent (keepLine lines text)).reverse := by
  have hhead : (recent lines).reverse.head? = lines.getLast? := by
    rw [recent_reverse, List.head?_take, if_neg (by decide), List.head?_reverse]
  unfold record keepLine
  rw [hhead]
  split
  · rfl
  · rw [recent_reverse, recent_reverse, List.reverse_append, List.reverse_singleton,
      List.singleton_append]
    change text :: ((lines.reverse.take SHELL_HISTORY_SIZE).take (SHELL_HISTORY_SIZE - 1)) =
      text :: lines.reverse.take (SHELL_HISTORY_SIZE - 1)
    rw [List.take_take]
    rfl

theorem foldl_record (texts : List (List U8)) : ∀ lines : List (List U8),
    texts.foldl (fun entries text => record text entries) (recent lines).reverse =
      (recent (texts.foldl keepLine lines)).reverse := by
  induction texts with
  | nil => exact fun _ => rfl
  | cons text texts ih =>
    intro lines
    rw [List.foldl_cons, record_recent, ih, List.foldl_cons]

/-- Only a submitted line changes the entries. -/
theorem edit_entries (key : Key) (e : Editor) : (key.edit e).entries =
    (key.submits e).foldl (fun entries text => record text entries) e.entries := by
  cases key with
  | char c =>
    unfold Key.edit Key.submits Editor.typed
    dsimp only
    by_cases henter : c.1 = NEWLINE
    · rw [if_pos henter, if_pos henter]
      rfl
    · rw [if_neg henter, if_neg henter]
      split
      · rfl
      · split <;> rfl
  | historyPrev =>
    unfold Key.edit Editor.older
    dsimp only
    split <;> split <;> rfl
  | historyNext =>
    unfold Key.edit Editor.newer
    dsimp only
    split <;> rfl
  | _ => rfl

/-- **The entries are the recent lines**, the newest first. -/
theorem editAll_entries : ∀ (events : List Event) {e : Editor} {lines : List (List U8)},
    e.entries = (recent lines).reverse → (editAll events e).entries =
      (recent ((submitted events e).foldl keepLine lines)).reverse := by
  intro events
  induction events with
  | nil => exact fun h => h
  | cons event events ih =>
    intro e lines h
    rw [submitted, List.foldl_append]
    refine ih ?_
    rw [edit_entries, h, foldl_record]

/-! ## Printing them -/

/-- A negative number is a minus sign and its digits. -/
theorem terminalWriteDecimal_neg {k : Nat} (hpos : 0 < k) (hk : k < 2 ^ 31) (t : Terminal) :
    terminalWriteDecimal (BitVec.ofInt 32 (-k)) t =
      execCalls [.writechar 0x2D, .write (decimal k)] t := by
  have hint : (BitVec.ofInt 32 (-(k : Int))).toInt = -k :=
    BitVec.toInt_ofInt_eq_self (by decide) (by omega) (by omega)
  have hneg : -BitVec.ofInt 32 (-(k : Int)) = BitVec.ofNat 32 k := by
    rw [BitVec.ofInt_neg, BitVec.neg_neg, BitVec.ofInt_natCast]
  have hnat : (BitVec.ofNat 32 k).toNat = k := by
    rw [BitVec.toNat_ofNat]
    omega
  unfold terminalWriteDecimal terminalWriteUint
  rw [if_pos (by omega), hneg, if_neg, hnat, digitsReversed_eq]
  · rfl
  · intro hzero
    rw [hzero] at hnat
    exact absurd hnat (Nat.ne_of_lt hpos)

/-- The calls for one line. -/
def listingEntry (count : Nat) (entry : List U8 × Nat) : List TermCall :=
  [.writechar 0x2D, .write (decimal (count - entry.2)), .write (chars ": "), .write entry.1,
    .write (chars "\n")]

/-- The calls that list lines, oldest first, numbered from `-count` to `-1`. -/
def listing (lines : List (List U8)) : List TermCall :=
  lines.zipIdx.flatMap (listingEntry lines.length)

/-- The two lines above the list. -/
def listingHead : List TermCall :=
  [.colorshellWrite (chars "Frewozet Shell command history for 16 most recent commands:\n") "info",
    .colorshellWrite (chars "Use Up/Down arrow keys to navigate through history.\n") "prompt"]

/-- Some calls, and then some more. -/
theorem onTerminal_execCalls (s : Shell) (calls calls' : List TermCall) :
    (s.onTerminal (execCalls calls)).onTerminal (execCalls calls') =
      s.onTerminal (execCalls (calls ++ calls')) := by
  have happ : execCalls (calls ++ calls') s.terminal =
      execCalls calls' (execCalls calls s.terminal) := List.foldl_append
  unfold Shell.onTerminal
  rw [happ]

section

variable {s : Shell} {entries : List (List U8)}

/-- Where the oldest entry is. -/
theorem oldest_eq (h : HistoryHolds s entries) :
    (s.historyNextIndex - s.historyCount + SHELL_HISTORY_SIZE).tmod SHELL_HISTORY_SIZE =
      (((s.historyNextIndex.toNat + SHELL_HISTORY_SIZE - entries.length) % SHELL_HISTORY_SIZE :
        Nat) : Int) := by
  have hnext := h.next
  have hcount := h.count
  have hle := h.ring.length_le
  exact tmod_size (by omega)

/-- A round prints an entry, counted from the oldest on. -/
theorem shellHistoryPrintEntry_of_holds (h : HistoryHolds s entries) {i : Nat}
    (hi : i < entries.length) :
    shellHistoryPrintEntry
        ((s.historyNextIndex - s.historyCount + SHELL_HISTORY_SIZE).tmod SHELL_HISTORY_SIZE) i s =
      some (s.onTerminal
        (execCalls (listingEntry entries.length (entries[entries.length - 1 - i], i)))) := by
  have hcount := h.count
  have hle := h.ring.length_le
  have hsize : SHELL_HISTORY_SIZE = 16 := rfl
  have hslot : ((s.historyNextIndex - s.historyCount + SHELL_HISTORY_SIZE).tmod
      SHELL_HISTORY_SIZE + i).tmod SHELL_HISTORY_SIZE =
        (ringSlot SHELL_HISTORY_SIZE s.historyNextIndex.toNat (entries.length - 1 - i) : Nat) := by
    rw [oldest_eq h, ← ringSlot_oldest hle hi]
    exact tmod_size rfl
  obtain ⟨row, hrow, hholds⟩ := (h.ring.row (entries.length - 1 - i) (by omega)).row hslot
  have hnumber : -(s.historyCount - i) = -((entries.length - i : Nat) : Int) := by omega
  unfold shellHistoryPrintEntry
  rw [hrow]
  dsimp only [bind, Option.bind]
  rw [CharArray.stringAt_of_holds hholds, hnumber]
  dsimp only [Shell.onTerminal]
  rw [terminalWriteDecimal_neg (by omega) (by omega)]
  rfl

/-- **`shell_history_print`** lists the entries, each of them once and the oldest first. -/
theorem shellHistoryPrint_of_holds (h : HistoryHolds s entries) (hne : entries ≠ []) :
    shellHistoryPrint s =
      some (s.onTerminal (execCalls (listingHead ++ listing entries.reverse))) := by
  have hpos : 0 < entries.length := List.length_pos_iff.2 hne
  have hcount := h.count
  have hrounds : s.historyCount.toNat = entries.length := by omega
  -- the state of the loop: so many entries have been printed
  obtain ⟨u, hloop, hu⟩ := forRangeM_rule
    (P := fun i (u : Shell) => u = s.onTerminal (execCalls (listingHead ++
      (entries.reverse.zipIdx.take i).flatMap (listingEntry entries.reverse.length))))
    (f := shellHistoryPrintEntry
      ((s.historyNextIndex - s.historyCount + SHELL_HISTORY_SIZE).tmod SHELL_HISTORY_SIZE))
    (s := s.onTerminal (execCalls listingHead)) (n := entries.length) rfl fun i hi u hu => by
      have hheld : HistoryHolds u entries := by
        rw [hu]
        exact ⟨h.count, h.next, h.ring⟩
      have hround := shellHistoryPrintEntry_of_holds hheld hi
      have hsame : u.historyNextIndex = s.historyNextIndex ∧ u.historyCount = s.historyCount := by
        rw [hu]
        exact ⟨rfl, rfl⟩
      rw [hsame.1, hsame.2] at hround
      refine ⟨_, hround, ?_⟩
      have hlt : i < entries.reverse.zipIdx.length := by simpa using hi
      rw [List.take_succ_eq_append_getElem hlt, List.flatMap_append, List.flatMap_singleton,
        List.getElem_zipIdx, List.getElem_reverse, ← List.append_assoc, hu, Nat.zero_add,
        List.length_reverse, onTerminal_execCalls]
  have hall : entries.reverse.zipIdx.take entries.length = entries.reverse.zipIdx :=
    List.take_of_length_le (by simp)
  rw [hall] at hu
  rw [← hrounds] at hloop
  unfold shellHistoryPrint
  rw [if_neg (by omega)]
  exact hloop.trans (congrArg some hu)

end

/-- **The history.**  In every run from `shell_init` its entries are the last 16 of the
lines that were kept; `shell_history_physical_index` finds the row of each of them, counted
from the newest on, and `shell_history_print` lists all of them. -/
theorem history_keeps_recent (s : Shell) (events : List Event) :
    ∃ s', (shellInit s >>= pressAll events) = some s' ∧
      s'.historyCount = min SHELL_HISTORY_SIZE (kept (submitted events {})).length ∧
      (∀ k (hk : k < (recent (kept (submitted events {}))).reverse.length),
        ∃ row, s'.historyRow (shellHistoryPhysicalIndex s' k) = some row ∧
          row.Holds (recent (kept (submitted events {}))).reverse[k]) ∧
      (recent (kept (submitted events {})) ≠ [] → shellHistoryPrint s' = some (s'.onTerminal
        (execCalls (listingHead ++ listing (recent (kept (submitted events {}))))))) := by
  obtain ⟨s', hrun, hrep⟩ := shell_represents s events
  have hentries := @editAll_entries events {} [] rfl
  have hhistory := hrep.history
  rw [hentries] at hhistory
  refine ⟨s', hrun, ?_, fun k hk => hhistory.historyRow_physicalIndex hk, fun hne => ?_⟩
  · rw [hhistory.count, List.length_reverse, length_recent]
    rfl
  · have hprint := shellHistoryPrint_of_holds hhistory fun hc =>
      hne (List.reverse_eq_nil_iff.1 hc)
    rw [List.reverse_reverse] at hprint
    exact hprint

end Frewozet
