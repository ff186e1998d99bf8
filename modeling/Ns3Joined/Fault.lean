/-!
# Faults

What stops a run of the modelled code before it returns.
-/

namespace Ns3Joined

/-- What stops a run: a failed `NS_ABORT_UNLESS`, `BOOST_VERIFY` or `BOOST_ASSERT`, an
`at()` out of range, a step the language gives no meaning to, or a loop that is still
running after the rounds it was given. -/
inductive Fault
  | abort
  | outOfRange
  | undefined
  | diverges
deriving DecidableEq, Repr

end Ns3Joined
