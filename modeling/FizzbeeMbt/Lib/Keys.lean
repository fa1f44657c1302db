import Mathlib.Data.List.Sort
import Mathlib.Data.List.Nodup

/-! Lists whose elements have distinct keys, in any order of them. -/

namespace FizzbeeMbt.Keys

variable {α κ : Type*} [LinearOrder κ] {key : α → κ} {order l : List α}

end FizzbeeMbt.Keys
