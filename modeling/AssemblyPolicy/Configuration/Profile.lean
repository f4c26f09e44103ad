import AssemblyPolicy.Policy.Basic

/-!
# Profiles

The policies that a configuration starts from.
-/

namespace AssemblyPolicy

/-- The rule that a member must not be used. -/
def prohibitMember (type member message : String) : Restriction where
  target := .member ⟨.ofDotted type, member⟩
  message := message
  scope := none
  mode := .prohibited
  severity := .error

/-- The policy for hosting mods: objects and components are made through the interface of the host,
and behaviours derive from its base class. -/
def Policy.modtool : Policy :=
  { Policy.empty with
    profile := "modtool"
    restrictions :=
      [prohibitMember "UnityEngine.Object" "Instantiate"
        ("Please use ModBehaviour.Instantiate or ContentHandler.Instantiate instead " ++
          "to ensure proper object creation."),
        prohibitMember "UnityEngine.GameObject" "AddComponent"
          ("Please use ModBehaviour.AddComponent or ContentHandler.AddComponent instead " ++
            "to ensure proper component handling."),
        prohibitMember "UnityEngine.GameObject" ".ctor" "Creating new GameObjects is not allowed",
        { target := .inheritance ⟨"ModTool.Interface", "ModBehaviour"⟩
          message := "Please use ModTool.Interface.ModBehaviour instead of MonoBehaviour."
          scope := some ⟨"UnityEngine", "MonoBehaviour"⟩
          mode := .required
          severity := .error }] }

/-- The profiles by name, the standard one first. -/
def profiles : List (String × Policy) := [("modtool", .modtool), ("empty", .empty)]

end AssemblyPolicy
