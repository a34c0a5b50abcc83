import Repoint.Discovery
import Repoint.Patch
import Repoint.Replace

/-!
# Runs

The first error ends a run; what was patched before stays patched.
-/

namespace Repoint

structure Options where
  followLinks : Bool := false
  /-- Tells what would be changed, and changes nothing. -/
  dryRun : Bool := false
  disk : Disk := {}

/-- Applies the rule to one file. A file without a reference to change is not touched. -/
def patchFile (options : Options) (path : Path) : Job FilePatch := do
  let data ← .inspect fun fs => (fs.read path).mapError (.read path)
  let edit := repoint data
  let patch : FilePatch :=
    { path
      replacements := edit.replacements
      linesChanged := edit.linesChanged
      written := false }
  if !edit.changed then
    .tell (.alreadyPatched path)
    return patch
  else if options.dryRun then
    .tell (.wouldPatch path patch.replacements)
    return patch
  else
    replaceFile options.disk path edit.bytes
    .tell (.patched path patch.replacements)
    return { patch with written := true }

/-- Applies the rule to files, one after the other. -/
def patchFiles (options : Options) : List Path → Job (List FilePatch)
  | [] => return []
  | path :: rest => do
    let patch ← patchFile options path
    (patch :: ·) <$> patchFiles options rest

def run (options : Options) (roots : List Path) : Job Report := do
  let files ← discover options.followLinks roots
  let patches ← patchFiles options files
  let report : Report :=
    { scanned := files.length, patches := patches.filter (0 < ·.replacements) }
  .tell (.runComplete report.scanned report.patches.length)
  return report

/-- Patches every build file below one root. Links are not followed. -/
def patchTree (disk : Disk) (root : Path) : Job Report := run { disk } [root]

end Repoint
