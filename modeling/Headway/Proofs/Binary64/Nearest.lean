import Headway.Proofs.Binary64.Exact

namespace Headway.Rounding

variable {num den q : ℕ}

end Headway.Rounding

namespace Headway.Binary64

open Headway.Rounding

end Headway.Binary64
