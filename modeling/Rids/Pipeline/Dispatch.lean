import Mathlib.Data.List.Chain
import Mathlib.Data.Nat.Bitwise
import Rids.Lib.Runs

/-!
# The dispatch loop and the white list

The loop in `main` opens `white_list.txt` at each turn and hands it to `cli_script_process` when
its size is not the size it last saw. The change detector knows a content by its length.

* `length_handed` — what was handed over last is as long as what the loop saw last.
* `noChangeMissed_iff` — no change is missed exactly when two contents seen one after the other
  that are equally long are equal.
-/

namespace Rids.Pipeline

open Rids.Lib.Runs

/-- A file: its characters, of one byte each. `st_size` is a signed number of 64 bits. -/
structure FileContent where
  text : List Char
  length_lt : text.length < 2 ^ 63

/-- A file with no characters. -/
def FileContent.empty : FileContent := ⟨[], Nat.two_pow_pos 63⟩

/-- A content is its text. -/
@[ext]
theorem FileContent.ext {c c' : FileContent} (h : c.text = c'.text) : c = c' := by
  cases c
  cases c'
  simp only at h
  simp only [h]

/-- `st_size`, converted to `uint64_t`. -/
def FileContent.size (c : FileContent) : BitVec 64 := BitVec.ofNat 64 c.text.length

/-- The conversion of `st_size` loses nothing. -/
theorem FileContent.size_eq_iff {c c' : FileContent} :
    c.size = c'.size ↔ c.text.length = c'.text.length := by
  have hc := c.length_lt
  have hc' := c'.length_lt
  unfold size
  constructor
  · intro h
    have hnat := congrArg BitVec.toNat h
    rw [BitVec.toNat_ofNat, BitVec.toNat_ofNat] at hnat
    omega
  · intro h
    rw [h]

section Dispatch

variable {T : Type} (process : FileContent → T → T)

/-- The loop: the size it last saw, and the tables of the pipelines. `handed` is what it last
handed to `cli_script_process`. -/
structure DispatchState (T : Type) where
  fileSize : BitVec 64
  handed : FileContent
  tables : T

/-- Before the first turn. -/
def DispatchState.init (tables : T) : DispatchState T := ⟨0, .empty, tables⟩

/-- A turn of the loop that finds the content `current`, where `process` is the effect of
`cli_script_process` on the tables.
Source: `main.c` `main`
Kind: D -/
def dispatchStep (d : DispatchState T) (current : FileContent) : DispatchState T :=
  if current.size ≠ d.fileSize then
    { fileSize := current.size, handed := current, tables := process current d.tables }
  else d

/-- No turn ends while the content it found is not what was handed over last. -/
def NoChangeMissed (d : DispatchState T) (observed : List FileContent) : Prop :=
  AllSafe (dispatchStep process) (fun d c => (dispatchStep process d c).handed = c) d observed

/-- Contents of one length are one content. -/
def LengthTells (c c' : FileContent) : Prop := c.text.length = c'.text.length → c = c'

variable {process} {d : DispatchState T} {c : FileContent}

/-- A file of the size seen last is left alone. -/
theorem dispatchStep_of_size_eq (h : c.size = d.fileSize) : dispatchStep process d c = d := by
  rw [dispatchStep, if_neg (not_not_intro h)]

/-- A file of another size is handed on. -/
theorem dispatchStep_of_size_ne (h : c.size ≠ d.fileSize) :
    dispatchStep process d c = ⟨c.size, c, process c d.tables⟩ := by
  rw [dispatchStep, if_pos h]

/-- After a turn the loop knows the size it found. -/
theorem fileSize_dispatchStep : (dispatchStep process d c).fileSize = c.size := by
  by_cases h : c.size = d.fileSize
  · rw [dispatchStep_of_size_eq h, h]
  · rw [dispatchStep_of_size_ne h]

/-- The size the loop knows is that of what it handed over. -/
def DispatchState.Sound (d : DispatchState T) : Prop := d.fileSize = d.handed.size

/-- The size kept at the start is that of the empty content. -/
theorem sound_init (tables : T) : (DispatchState.init tables).Sound := rfl

/-- One turn keeps the size that of the content handed on. -/
theorem DispatchState.Sound.dispatchStep (h : d.Sound) (c : FileContent) :
    (dispatchStep process d c).Sound := by
  by_cases hc : c.size = d.fileSize
  · rw [dispatchStep_of_size_eq hc]
    exact h
  · rw [dispatchStep_of_size_ne hc]
    rfl

/-- So do all turns. -/
theorem DispatchState.Sound.foldl (h : d.Sound) (observed : List FileContent) :
    (observed.foldl (Pipeline.dispatchStep process) d).Sound := by
  induction observed generalizing d with
  | nil => exact h
  | cons c observed ih => exact ih (h.dispatchStep c)

/-- What was handed over last is as long as what the loop saw last. -/
theorem length_handed (h : d.Sound) (observed : List FileContent) (c : FileContent) :
    ((observed ++ [c]).foldl (dispatchStep process) d).handed.text.length = c.text.length := by
  have hsound : ((observed ++ [c]).foldl (dispatchStep process) d).Sound := h.foldl _
  rw [← FileContent.size_eq_iff, ← hsound, List.foldl_append]
  exact fileSize_dispatchStep

/-- A turn misses nothing exactly when the length tells the content it finds from the one that was
handed over last. -/
theorem handed_dispatchStep_iff (h : d.Sound) :
    (dispatchStep process d c).handed = c ↔ LengthTells d.handed c := by
  unfold LengthTells
  rw [← FileContent.size_eq_iff, ← h]
  by_cases hc : c.size = d.fileSize
  · rw [dispatchStep_of_size_eq hc]
    constructor
    · intro heq _
      exact heq
    · intro htells
      exact htells hc.symm
  · rw [dispatchStep_of_size_ne hc]
    exact iff_of_true rfl fun heq => absurd heq.symm hc

/-- No change is missed exactly when the length tells each one. -/
theorem noChangeMissed_iff_of_sound (h : d.Sound) (observed : List FileContent) :
    NoChangeMissed process d observed ↔ List.IsChain LengthTells (d.handed :: observed) := by
  induction observed generalizing d with
  | nil =>
    refine iff_of_true ?_ (List.isChain_singleton _)
    intro pre c post hsplit
    simp at hsplit
  | cons c observed ih =>
    unfold NoChangeMissed at ih ⊢
    rw [allSafe_cons, handed_dispatchStep_iff h, List.isChain_cons_cons]
    apply and_congr_right
    intro htells
    rw [ih (h.dispatchStep c), (handed_dispatchStep_iff h).mpr htells]

/-- **No white list change is missed** exactly when any two contents that the loop finds one after
the other, the first of them after an empty one, are equal if they are equally long. -/
theorem noChangeMissed_iff (process : FileContent → T → T) (tables : T)
    (observed : List FileContent) :
    NoChangeMissed process (.init tables) observed ↔
      List.IsChain LengthTells (.empty :: observed) :=
  noChangeMissed_iff_of_sound (sound_init tables) observed

end Dispatch

/-! ### An edit that keeps the length -/

/-- A command up to the port it names. -/
def toPort : List Char := "pipeline P table 0 rule add match default action fwd port ".toList

/-- The length of the example rule. -/
theorem length_toPort : toPort.length = 58 := by decide +kernel

/-- The default rule of a table sends packets to a port. -/
def portRule (port : Char) : FileContent where
  text := toPort ++ [port, '\n']
  length_lt := by
    have hlt : 60 < 2 ^ 63 := by decide
    rwa [List.length_append, length_toPort]

/-- Rules that differ in a digit have one size. -/
theorem size_portRule (port port' : Char) : (portRule port).size = (portRule port').size := by
  rw [FileContent.size_eq_iff, portRule, portRule, List.length_append, List.length_append]
  rfl

/-- The example rule is not empty. -/
theorem size_portRule_ne (port : Char) : (portRule port).size ≠ FileContent.empty.size := by
  rw [ne_eq, FileContent.size_eq_iff, portRule, List.length_append]
  exact Nat.succ_ne_zero _

/-- After the edit of the port, the file from before is still what was handed over last. -/
theorem portEdit_missed :
    ¬ NoChangeMissed (fun _ (tables : Unit) => tables) (.init ()) [portRule '0', portRule '1'] := by
  intro h
  have hmissed := h [portRule '0'] (portRule '1') [] rfl
  have hne : (portRule '0').size ≠ (DispatchState.init ()).fileSize := size_portRule_ne '0'
  have heq := size_portRule '1' '0'
  rw [List.foldl_cons, List.foldl_nil, dispatchStep_of_size_ne hne, dispatchStep_of_size_eq heq]
    at hmissed
  have htext := List.append_cancel_left (congrArg FileContent.text hmissed)
  exact absurd htext (by decide)

end Rids.Pipeline
