import Formulary.Machine.Basic
import Formulary.Snapshot.Entry

namespace Formulary

/-!
# Snapshots of a machine

A snapshot holds the global entries and nothing else.
-/

namespace Machine

/-- The bytes of the global entries. -/
def snapshot (machine : Machine) : List UInt8 :=
  Wire.entries.write machine.entries

/--
A machine with the entries of a snapshot.  Of several entries of one name the
last one counts, in the place of the first; bytes after the snapshot are
ignored.
-/
def restore (config : Config) (bytes : List UInt8) : Except Error Machine :=
  match Wire.entries.read bytes with
  | .ok (entries, _) =>
      .ok { ofConfig config with scopes := ⟨Bindings.ofEntries entries, []⟩ }
  | .error fault => .error (.snapshot fault)

end Machine

end Formulary
