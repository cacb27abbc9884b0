import PlannerBackend.Delivery
import PlannerBackend.Presence
import PlannerBackend.Process
import PlannerBackend.Records
import PlannerBackend.Writes

set_option autoImplicit false

namespace Planner

open Docs Resume

section Finished

variable (pkg : Packages)

end Finished

section Tokens

variable (pkg : Packages)

end Tokens

section Passwords

variable (pkg : Packages) (start : Store)

end Passwords

end Planner
