/-!
# Powers of natural numbers

`n ^ k` can be read through several instances that agree by computation. The library reads it through
the one the kernel's own arithmetic is stated for, wherever it is used.
-/

namespace Stepwise

attribute [scoped instance (high)] instPowNat

end Stepwise
