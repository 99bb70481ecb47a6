import ScriptTree.Lax
import ScriptTree.Script.Decode
import ScriptTree.Settings

/-!
Options from a document. Each may be left out, each may be written in any lax way, and all of them
are checked.
-/

namespace ScriptTree.Settings

/-- A recursion limit: an integer above zero. -/
def limit (json : Json) : Checked Nat :=
  Int.toNat <$> (LaxInt.ofJson json).filter (0 < ·) .greaterThan

/-- The options that the members of an object give. -/
def ofMembers (members : List (String × Json)) : Checked Settings :=
  (fun legacyModulo recursionLimit traceCalls => { legacyModulo, recursionLimit, traceCalls })
    <$> Member.optional standard.legacyModulo
      (Member.check? "legacy_modulo" LaxBool.ofJson members)
    <*> Member.optional standard.recursionLimit (Member.check? "recursion_limit" limit members)
    <*> Member.optional standard.traceCalls (Member.check? "trace_calls" LaxBool.ofJson members)

end ScriptTree.Settings
