import Frewozet.Base.Append
import Frewozet.Terminal.Code
import Mathlib.Data.List.Induction
import Mathlib.Data.List.ReduceOption

/-!
# `startup_error.c`

The log of what goes wrong before there is a shell to say it in.

* `logStartupError` — the code; a result `none` means that an index left
  `startupErrors`.
* `Message` — a string shorter than the buffer.
* `ErrorLog` — the messages that are kept, and whether others were given up; its `text`.
* `logStartupError_fits`, `logStartupError_overrun` — a call keeps its message, **unless the
  lengths add up to 511 or 512**: the guard counts neither the newline nor the NUL.
* `startup_log_kept_iff` — exactly the runs that meet no such message stay in the buffer.
-/

namespace Frewozet

/-! ## The code -/

def STARTUP_ERROR_BUFFER_SIZE : Nat := 512

/-- What the log is replaced by when it is full. -/
def LOG_OVERFLOW : List U8 :=
  chars "FREWOZET SYSTEM ERROR: Too many errors to display.\n    Startup error log buffer overflow."

/-- `startupErrors`, as it is initialized. -/
def startupErrors : CharArray STARTUP_ERROR_BUFFER_SIZE := CharArray.ofText []

/-- `logStartupError`.  The description can be a null pointer. -/
def logStartupError (description : Option (List U8))
    (log : CharArray STARTUP_ERROR_BUFFER_SIZE) : Option (CharArray STARTUP_ERROR_BUFFER_SIZE) :=
  match description with
  | none => some log
  | some description => do
    let length ← log.strlen
    let added ← (CharArray.literal description).strlen
    if length + added > STARTUP_ERROR_BUFFER_SIZE then
      log.strcpy (CharArray.literal LOG_OVERFLOW)
    else do
      let log ← log.strcat (CharArray.literal description)
      log.strcat (CharArray.literal [NEWLINE])

/-! ## What the log is for -/

/-- A string shorter than the buffer. -/
abbrev Message := { s : List U8 // 0 ∉ s ∧ s.length < STARTUP_ERROR_BUFFER_SIZE }

/-- The calls one after the other, from the start. -/
def logAll (calls : List (Option Message)) : Option (CharArray STARTUP_ERROR_BUFFER_SIZE) :=
  calls.foldlM (fun log call => logStartupError (call.map Subtype.val) log) startupErrors

/-- The messages, each followed by a newline. -/
def messageLines (messages : List Message) : List U8 :=
  messages.flatMap fun message => message.1 ++ [NEWLINE]

/-- The messages kept since the start, or since others had to be given up. -/
structure ErrorLog where
  overflowed : Bool := false
  messages : List Message := []

namespace ErrorLog

def text (l : ErrorLog) : List U8 :=
  (if l.overflowed then LOG_OVERFLOW else []) ++ messageLines l.messages

/-- Log a message. -/
def add (l : ErrorLog) (message : Message) : ErrorLog :=
  if l.text.length + message.1.length > STARTUP_ERROR_BUFFER_SIZE then ⟨true, []⟩
  else { l with messages := l.messages ++ [message] }

/-- What is kept of these calls. -/
def after (calls : List (Option Message)) : ErrorLog :=
  calls.foldl (fun l call => call.elim l l.add) {}

theorem after_append (calls : List (Option Message)) (call : Option Message) :
    after (calls ++ [call]) = call.elim (after calls) (after calls).add := by
  simp [after, List.foldl_append]

/-- **Until the overflow message, all of them** are kept, in their order. -/
theorem text_of_not_overflowed {calls : List (Option Message)}
    (h : (after calls).overflowed = false) :
    (after calls).text = messageLines calls.reduceOption := by
  suffices hmessages : (after calls).messages = calls.reduceOption by
    simp [text, h, hmessages]
  induction calls using List.reverseRecOn with
  | nil => rfl
  | append_singleton calls call ih =>
    rw [after_append] at h ⊢
    cases call with
    | none => simpa [List.reduceOption_append] using ih h
    | some message =>
      simp only [Option.elim_some, add] at h ⊢
      split at h
      · cases h
      · rename_i hfits
        rw [if_neg hfits]
        simp [List.reduceOption_append, ih h]

end ErrorLog

/-! ## One call -/

section

variable {log log' : CharArray STARTUP_ERROR_BUFFER_SIZE} {l : ErrorLog} {message : Message}

theorem log_overflow_plain : 0 ∉ LOG_OVERFLOW := by decide

/-- The message's newline and the NUL are not counted by the guard. -/
def Overruns (l : ErrorLog) (message : Message) : Prop :=
  l.text.length + message.1.length = STARTUP_ERROR_BUFFER_SIZE - 1 ∨
    l.text.length + message.1.length = STARTUP_ERROR_BUFFER_SIZE

theorem logStartupError_some (h : log.Holds l.text) :
    logStartupError (some message.1) log =
      if l.text.length + message.1.length > STARTUP_ERROR_BUFFER_SIZE then
        log.strcpy (CharArray.literal LOG_OVERFLOW)
      else log.strcat (CharArray.literal message.1) >>= fun log =>
        log.strcat (CharArray.literal [NEWLINE]) := by
  rw [logStartupError, CharArray.strlen_of_holds h]
  dsimp only [bind, Option.bind]
  rw [CharArray.strlen_of_holds (CharArray.literal_holds message.2.1)]

theorem newline_holds : (CharArray.literal [NEWLINE]).Holds [NEWLINE] :=
  CharArray.literal_holds (by decide)

theorem ErrorLog.text_add_overflow
    (h : l.text.length + message.1.length > STARTUP_ERROR_BUFFER_SIZE) :
    (l.add message).text = LOG_OVERFLOW := by
  rw [add, if_pos h]
  simp [text, messageLines]

theorem ErrorLog.text_add (h : ¬ l.text.length + message.1.length > STARTUP_ERROR_BUFFER_SIZE) :
    (l.add message).text = l.text ++ message.1 ++ [NEWLINE] := by
  rw [add, if_neg h]
  simp [text, messageLines]

/-- **A call keeps its message**, or replaces the log. -/
theorem logStartupError_fits (h : log.Holds l.text) (hfits : ¬ Overruns l message) :
    ∃ log', logStartupError (some message.1) log = some log' ∧
      log'.Holds (l.add message).text := by
  rw [logStartupError_some h]
  by_cases hfull : l.text.length + message.1.length > STARTUP_ERROR_BUFFER_SIZE
  · rw [if_pos hfull, ErrorLog.text_add_overflow hfull]
    exact CharArray.strcpy_of_holds (CharArray.literal_holds log_overflow_plain) (by decide) log
  · rw [if_neg hfull, ErrorLog.text_add hfull]
    unfold Overruns STARTUP_ERROR_BUFFER_SIZE at hfits
    unfold STARTUP_ERROR_BUFFER_SIZE at hfull
    obtain ⟨log₁, hcat, hholds⟩ := CharArray.strcat_of_holds h
      (CharArray.literal_holds message.2.1) (by unfold STARTUP_ERROR_BUFFER_SIZE; omega)
    obtain ⟨log', hnewline, hholds'⟩ := CharArray.strcat_of_holds hholds newline_holds (by
      rw [List.length_append, List.length_singleton]
      unfold STARTUP_ERROR_BUFFER_SIZE
      omega)
    refine ⟨log', ?_, hholds'⟩
    rw [hcat]
    exact hnewline

/-- **With 511 or 512 characters in sum it leaves the buffer.** -/
theorem logStartupError_overrun (h : log.Holds l.text) (hover : Overruns l message) :
    logStartupError (some message.1) log = none := by
  unfold Overruns at hover
  rw [logStartupError_some h, if_neg (by unfold STARTUP_ERROR_BUFFER_SIZE at *; omega)]
  dsimp only [bind, Option.bind]
  rcases hover with hsum | hsum
  · obtain ⟨log₁, hcat, hholds⟩ := CharArray.strcat_of_holds h
      (CharArray.literal_holds message.2.1) (by rw [hsum]; decide)
    rw [hcat]
    exact CharArray.strcat_overrun hholds newline_holds (by
      rw [List.length_append, hsum]
      decide)
  · rw [CharArray.strcat_overrun h (CharArray.literal_holds message.2.1) (Nat.le_of_eq hsum.symm)]

end

/-! ## Runs -/

theorem logAll_append (calls : List (Option Message)) (call : Option Message) :
    logAll (calls ++ [call]) = logAll calls >>= logStartupError (call.map Subtype.val) := by
  simp [logAll, List.foldlM_append]

/-- The log is a string in its buffer, what is kept of the calls. -/
def LogKept (calls : List (Option Message)) : Prop :=
  ∃ log, logAll calls = some log ∧ log.Holds (ErrorLog.after calls).text

theorem logKept_nil : LogKept [] :=
  ⟨startupErrors, rfl, CharArray.ofText_holds (by decide) List.not_mem_nil⟩

/-- **One call more** keeps the log in its buffer exactly if it does not overrun it. -/
theorem logKept_append_iff {calls : List (Option Message)} (h : LogKept calls)
    (call : Option Message) : LogKept (calls ++ [call]) ↔
      ∀ message, call = some message → ¬ Overruns (ErrorLog.after calls) message := by
  obtain ⟨log, hlog, hholds⟩ := h
  rw [LogKept, logAll_append, hlog, ErrorLog.after_append]
  cases call with
  | none => exact iff_of_true ⟨log, rfl, hholds⟩ fun _ h => by cases h
  | some message =>
    constructor
    · rintro ⟨log', hrun, -⟩ _ ⟨rfl⟩ hover
      have hnone := logStartupError_overrun hholds hover
      exact Option.some_ne_none log' (hrun.symm.trans hnone)
    · intro hfits
      exact logStartupError_fits hholds (hfits message rfl)

/-- **The log of startup errors.**  In every state of a run it is a NUL-terminated string in its
512 bytes, and until the overflow message replaces it all messages in their order, each with
a newline behind it, exactly if no message meets a log that it has 511 or 512 characters
together with. -/
theorem startup_log_kept_iff (calls : List (Option Message)) :
    (∀ before, before <+: calls → ∃ log, logAll before = some log ∧
      log.Holds (ErrorLog.after before).text ∧
      ((ErrorLog.after before).overflowed = false →
        log.Holds (messageLines before.reduceOption))) ↔
    ∀ before message, before ++ [some message] <+: calls →
      ¬ Overruns (ErrorLog.after before) message := by
  constructor
  · intro hall before message hpre
    have hkept : ∀ earlier, earlier <+: calls → LogKept earlier := by
      intro earlier hearlier
      obtain ⟨log, hlog, hholds, -⟩ := hall earlier hearlier
      exact ⟨log, hlog, hholds⟩
    exact (logKept_append_iff (hkept before ((List.prefix_append _ _).trans hpre)) _).1
      (hkept _ hpre) message rfl
  · intro hfits before hpre
    have hkept : LogKept before := by
      induction before using List.reverseRecOn with
      | nil => exact logKept_nil
      | append_singleton before call ih =>
        refine (logKept_append_iff (ih ((List.prefix_append _ _).trans hpre)) call).2 ?_
        rintro message rfl
        exact hfits before message hpre
    obtain ⟨log, hlog, hholds⟩ := hkept
    exact ⟨log, hlog, hholds, fun hall => ErrorLog.text_of_not_overflowed hall ▸ hholds⟩

theorem replicate_message {k : Nat} (hk : k < STARTUP_ERROR_BUFFER_SIZE) :
    0 ∉ List.replicate k (0x41 : U8) ∧
      (List.replicate k (0x41 : U8)).length < STARTUP_ERROR_BUFFER_SIZE := by
  refine ⟨fun hmem => absurd (List.eq_of_mem_replicate hmem) (by decide), ?_⟩
  rwa [List.length_replicate]

/-- So many times the letter `A`. -/
def repeatedA (k : Nat) (hk : k < STARTUP_ERROR_BUFFER_SIZE) : Message :=
  ⟨List.replicate k 0x41, replicate_message hk⟩

/-- A first message of 511 characters: the NUL behind its newline goes to byte 512. -/
theorem logStartupError_overruns_first : logAll [some (repeatedA 511 (by decide))] = none := by
  have hlength : (repeatedA 511 (by decide)).1.length = 511 := List.length_replicate
  generalize repeatedA 511 (by decide) = message at hlength
  have hholds : startupErrors.Holds (ErrorLog.after []).text :=
    CharArray.ofText_holds (by decide) List.not_mem_nil
  have hover : Overruns (ErrorLog.after []) message := by
    left
    rw [hlength]
    decide
  have hnone := logStartupError_overrun hholds hover
  change (logStartupError (some message.1) startupErrors >>= some) = none
  rw [hnone]
  rfl

end Frewozet
