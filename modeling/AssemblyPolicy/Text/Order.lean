/-!
# The order of texts

Texts are compared by code points, which is also the order of their UTF-8 bytes.
-/

namespace AssemblyPolicy

/-- Compare texts by code points. -/
def compareText (a b : String) : Ordering := compareOfLessAndEq a b

end AssemblyPolicy
