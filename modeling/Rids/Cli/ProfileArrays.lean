import Rids.Cli.ConfigurationRun
import Rids.Lib.Runs

/-!
# The arrays of the traffic manager (`tmgr.c`)

The profiles of subports and pipes are kept in two arrays. A new profile is written behind the
last one, and neither the command nor the function compares its place with the size of the array.

* `profileArrays_run` — the runs in which no profile is written past the end of its array.
-/

namespace Rids.Cli

open Rids.Lib.Runs

/-- Source: `tmgr.h` `TMGR_SUBPORT_PROFILE_MAX`. Kind: D -/
def tmgrSubportProfileMax : ℕ := 256

/-- Source: `tmgr.h` `TMGR_PIPE_PROFILE_MAX`. Kind: D -/
def tmgrPipeProfileMax : ℕ := 256

/-- The place that a command writes, and the size of the array.
Source: `tmgr.c` `tmgr_subport_profile_add`, `tmgr_pipe_profile_add`
Kind: D -/
def profileWrite (c : Configuration) : ConfigCommand → Option (ℕ × ℕ)
  | .tmgrSubportProfile _ => some (c.subportProfiles.length, tmgrSubportProfileMax)
  | .tmgrPipeProfile _ => some (c.pipeProfiles.length, tmgrPipeProfileMax)
  | _ => none

/-- Every profile of a run is written inside its array. -/
def WritesInside (steps : List (Library × ConfigCommand)) : Prop :=
  AllSafe (fun c step => exec step.1 c step.2)
    (fun c step => ∀ w ∈ profileWrite c step.2, w.1 < w.2) .init steps

def ConfigCommand.isSubportProfile : ConfigCommand → Bool
  | .tmgrSubportProfile _ => true
  | _ => false

def ConfigCommand.isPipeProfile : ConfigCommand → Bool
  | .tmgrPipeProfile _ => true
  | _ => false

/-- A profile command adds one entry to its list. -/
theorem length_exec (lib : Library) (c : Configuration) (cmd : ConfigCommand) :
    (exec lib c cmd).subportProfiles.length =
        c.subportProfiles.length + cmd.isSubportProfile.toNat ∧
      (exec lib c cmd).pipeProfiles.length = c.pipeProfiles.length + cmd.isPipeProfile.toNat := by
  have hkeep (o : Option PipelineObject) :
      (o.elim c c.setPipeline).subportProfiles.length = c.subportProfiles.length ∧
        (o.elim c c.setPipeline).pipeProfiles.length = c.pipeProfiles.length := by
    rcases o with - | p
    · exact ⟨rfl, rfl⟩
    · exact ⟨rfl, rfl⟩
  cases cmd with
  | tmgrSubportProfile params => exact ⟨List.length_append, rfl⟩
  | tmgrPipeProfile params => exact ⟨rfl, List.length_append⟩
  | portIn name params enabled => exact hkeep _
  | portOut name params => exact hkeep _
  | table name params => exact hkeep _
  | portInTable name portId tableId => exact hkeep _
  | _ => exact ⟨rfl, rfl⟩

/-- A write stays inside its array exactly while the list is short. -/
theorem profileWrite_inside_iff (c : Configuration) (cmd : ConfigCommand) :
    (∀ w ∈ profileWrite c cmd, w.1 < w.2) ↔
      (cmd.isSubportProfile → c.subportProfiles.length < tmgrSubportProfileMax) ∧
        (cmd.isPipeProfile → c.pipeProfiles.length < tmgrPipeProfileMax) := by
  cases cmd with
  | tmgrSubportProfile params =>
    simp [profileWrite, ConfigCommand.isSubportProfile, ConfigCommand.isPipeProfile]
  | tmgrPipeProfile params =>
    simp [profileWrite, ConfigCommand.isSubportProfile, ConfigCommand.isPipeProfile]
  | _ => simp [profileWrite, ConfigCommand.isSubportProfile, ConfigCommand.isPipeProfile]

/-- **The arrays of the profiles.** No profile is written past the end of its array exactly in the
runs with at most as many commands of each kind as the array has places. -/
theorem profileArrays_run (steps : List (Library × ConfigCommand)) :
    WritesInside steps ↔
      steps.countP (fun step => step.2.isSubportProfile) ≤ tmgrSubportProfileMax ∧
        steps.countP (fun step => step.2.isPipeProfile) ≤ tmgrPipeProfileMax := by
  have hsubport : AllSafe (fun c step => exec step.1 c step.2)
      (fun c step => step.2.isSubportProfile → c.subportProfiles.length < tmgrSubportProfileMax)
      .init steps ↔ _ :=
    allSafe_count_iff (fun c step => (length_exec step.1 c step.2).1) (Nat.zero_le _) steps
  have hpipe : AllSafe (fun c step => exec step.1 c step.2)
      (fun c step => step.2.isPipeProfile → c.pipeProfiles.length < tmgrPipeProfileMax)
      .init steps ↔ _ :=
    allSafe_count_iff (fun c step => (length_exec step.1 c step.2).2) (Nat.zero_le _) steps
  simp only [WritesInside, profileWrite_inside_iff]
  rw [allSafe_and, hsubport, hpipe]
  simp only [Configuration.init, List.length_nil, Nat.zero_add]

end Rids.Cli
