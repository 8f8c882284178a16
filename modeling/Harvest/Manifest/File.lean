import Harvest.Disk.Basic
import Harvest.Manifest.Text

/-!
# Manifests in files

The manifest of an extraction is a file of a fixed name in the directory of its pages.
Design: `SPEC_FULL.md:270–272`.
-/

namespace Harvest.Manifest

/-- The path of the manifest in a directory. -/
def pathIn (directory : String) : String := Disk.join directory fileName

/-- Write a manifest into a directory. -/
def writeTo (m : Manifest) (directory : String) (d : Disk) : Except Disk.Fault Disk :=
  d.write (pathIn directory) (Text.bytesOf m.text)

/-- Read the manifest in a directory, or say why there is none. Its file has to be a text. -/
def readFrom (directory : String) (d : Disk) : Except String Manifest := do
  let bytes ← (d.read (pathIn directory)).mapError Disk.Fault.message
  match Text.decode bytes with
  | none => .error Disk.Fault.notText.message
  | some _ => parse bytes

end Harvest.Manifest
