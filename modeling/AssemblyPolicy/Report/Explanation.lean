/-!
# Explanations

What the checks and codes of findings mean, and what to do about them. `Explanation.find?` looks up
an identifier, `Explanation.text` lays an explanation out for a terminal.
-/

namespace AssemblyPolicy

/-- The same thing done wrongly and rightly. -/
structure Snippets where
  language : String
  before : String
  after : String

structure Explanation where
  title : String
  description : String
  remediation : String
  snippets : Snippets

namespace Explanation

def lines (ls : List String) : String := "\n".intercalate ls

/-! ### The explanations -/

def namespaceRestriction : Explanation where
  title := "Namespace Restriction"
  description := lines
    ["Requires or prohibits the use of an entire namespace.",
     "",
     "A member uses a namespace when a field or property has a type from it, when a method",
     "references a member whose declaring type lives in it, or when a local variable is declared",
     "with a type from it. With `include_nested = true`, nested namespaces count as well",
     "(`System.IO` also covers `System.IO.Compression`).",
     "",
     "Calls are followed transitively through the mod's own code, so wrapping a prohibited call in",
     "a helper method does not hide it."]
  remediation := lines
    ["Remove the namespace usage, or route it through the API the game exposes to mods.",
     "If the usage lives in a library you ship alongside the mod and that library is vetted,",
     "ask the host to add it to `trusted_assemblies`."]
  snippets :=
    { language := "csharp"
      before := lines
        ["using System.IO;",
         "",
         "public class SaveMod : ModBehaviour",
         "\x7b",
         "    void Save() \x7b File.WriteAllText(\"save.txt\", \"data\"); \x7d",
         "\x7d"]
      after := lines
        ["public class SaveMod : ModBehaviour",
         "\x7b",
         "    void Save() \x7b ModStorage.Write(\"save\", \"data\"); \x7d",
         "\x7d"] }

def typeRestriction : Explanation where
  title := "Type Restriction"
  description := lines
    ["Requires or prohibits the use of a specific type.",
     "",
     "A type is used when a field, property, or local variable is declared with it, or when a",
     "method references one of its members. Matching compares both the namespace and the",
     "simple name."]
  remediation := "Replace the restricted type with the alternative named in the finding message."
  snippets :=
    { language := "csharp"
      before := lines
        ["public class NetMod : ModBehaviour",
         "\x7b",
         "    System.Net.WebClient client = new System.Net.WebClient();",
         "\x7d"]
      after := lines
        ["public class NetMod : ModBehaviour",
         "\x7b",
         "    // Network access goes through the host API instead.",
         "\x7d"] }

def memberRestriction : Explanation where
  title := "Member Restriction"
  description := lines
    ["Requires or prohibits calls to, or accesses of, a specific member of a type.",
     "",
     "Matching compares the member's simple name and the simple name of its declaring type.",
     "Every method the mod defines is checked together with everything it calls inside the mod",
     "(and inside any untrusted library), so indirect calls are found as well."]
  remediation := lines
    ["Use the replacement API named in the finding message. For the stock policy that means",
     "`ModBehaviour.Instantiate` / `ContentHandler.Instantiate` instead of `Object.Instantiate`,",
     "and `ContentHandler.AddComponent` instead of `GameObject.AddComponent`."]
  snippets :=
    { language := "csharp"
      before := "var go = Object.Instantiate(prefab);"
      after := "var go = Content.Instantiate(prefab);" }

def inheritanceRestriction : Explanation where
  title := "Inheritance Restriction"
  description := lines
    ["Requires or prohibits deriving from a given base type.",
     "",
     "Only types are checked. The base-type chain is walked through every loaded assembly, so",
     "indirect derivation counts. Types whose chain cannot be resolved are treated as not",
     "deriving from the target (a documented fail-open gap)."]
  remediation := lines
    ["Change the base class as named in the finding message. For the stock policy, derive from",
     "`ModTool.Interface.ModBehaviour` instead of `UnityEngine.MonoBehaviour`."]
  snippets :=
    { language := "csharp"
      before := "public class MyMod : MonoBehaviour \x7b \x7d"
      after := "public class MyMod : ModBehaviour \x7b \x7d" }

def assemblyMetadata : Explanation where
  title := "Assembly Metadata"
  description := lines
    ["Reports candidate assemblies whose metadata snapshot could not be read or is structurally",
     "invalid. Verification of that assembly is aborted and the assembly is rejected; other",
     "assemblies in the same run are still verified."]
  remediation := lines
    ["Rebuild the mod and regenerate its metadata snapshot with the reader that ships with the",
     "host. Do not edit snapshots by hand."]
  snippets :=
    { language := "json"
      before := "\x7b \"name\": \"\", \"types\": [] \x7d"
      after := "\x7b \"name\": \"ExampleMod\", \"types\": [] \x7d" }

def callGraph : Explanation where
  title := "Call Graph Analysis"
  description := lines
    ["Reports methods whose call graph exceeded the configured traversal limits",
     "(`limits.max_depth`, `limits.max_methods`) before a verdict could be reached.",
     "",
     "The mod is untrusted input, so the verifier refuses to pass code it could not fully inspect."]
  remediation := lines
    ["Flatten deeply nested call chains, or raise the limits in `modguard.toml` if the host",
     "accepts the extra verification cost."]
  snippets :=
    { language := "toml"
      before := lines
        ["[limits]",
         "max_depth = 8"]
      after := lines
        ["[limits]",
         "max_depth = 64",
         "max_methods = 10000"] }

def prohibitedPresent : Explanation where
  title := "Prohibited pattern present"
  description := "The member under test (or something it calls) uses a pattern the policy prohibits."
  remediation := lines
    ["Remove the usage. The finding location names the member where the walk started; the",
     "restriction message explains the sanctioned alternative."]
  snippets := memberRestriction.snippets

def requiredAbsent : Explanation where
  title := "Required pattern absent"
  description := lines
    ["The policy requires a pattern for members of this kind, and none was found in the member",
     "or anything it calls."]
  remediation := "Add the required usage, typically by changing the base class or calling the required API."
  snippets := inheritanceRestriction.snippets

def unreadableAssembly : Explanation where
  title := "Unreadable assembly"
  description := "The candidate assembly snapshot could not be read from disk."
  remediation := "Check the path and file permissions, then re-run the verifier."
  snippets :=
    { language := "text"
      before := "modguard check mods/Missing.json"
      after := "modguard check mods/ExampleMod.json" }

def malformedMetadata : Explanation := { assemblyMetadata with title := "Malformed metadata" }

def walkLimitExceeded : Explanation := { callGraph with title := "Walk limit exceeded" }

def checks : List (String × Explanation) :=
  [("restriction.namespace", namespaceRestriction), ("restriction.type", typeRestriction),
    ("restriction.member", memberRestriction),
    ("restriction.inheritance", inheritanceRestriction), ("assembly.metadata", assemblyMetadata),
    ("analysis.call_graph", callGraph)]

def codes : List (String × Explanation) :=
  [("prohibited_present", prohibitedPresent), ("required_absent", requiredAbsent),
    ("malformed_metadata", malformedMetadata), ("unreadable_assembly", unreadableAssembly),
    ("walk_limit_exceeded", walkLimitExceeded)]

def find? (identifier : String) : Option Explanation := (checks ++ codes).lookup identifier

/-! ### Layout -/

def line (s : String) : String := s ++ "\n"

/-- Code in a fence, below a heading. -/
def fenced (heading language code : String) : String :=
  line heading ++ line ("```" ++ language) ++ line code ++ line "```"

def text (e : Explanation) : String :=
  line e.title ++ line (String.ofList (List.replicate e.title.utf8ByteSize '=')) ++ line "" ++
    line e.description ++ line "" ++ line "Remediation" ++ line "-----------" ++
    line e.remediation ++ line "" ++ line "Examples" ++ line "--------" ++ line "" ++
    fenced "Before (violation):" e.snippets.language e.snippets.before ++ line "" ++
    fenced "After (fixed):" e.snippets.language e.snippets.after

/-- The identifiers of a list, each as an item. -/
def items (entries : List (String × Explanation)) : String :=
  String.join (entries.map fun e => line ("  - " ++ e.1))

/-- The answer for an identifier without an explanation. -/
def notFoundText (identifier : String) : String :=
  line ("Unknown check_id or code: " ++ identifier) ++ line "" ++ line "Available check_ids:" ++
    items checks ++ line "" ++ line "Available codes:" ++ items codes

end Explanation

end AssemblyPolicy
