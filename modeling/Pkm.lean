import Pkm.Kacs.AppendAce
import Pkm.Kacs.ClaimCodec
import Pkm.Kacs.ClaimSize
import Pkm.Kacs.Inheritance
import Pkm.Kacs.InsertDeny
import Pkm.Kacs.Membership
import Pkm.Kacs.Narrowing
import Pkm.Kacs.Noninterference
import Pkm.Kacs.PortReservations
import Pkm.Kacs.PrivilegeUse
import Pkm.Kacs.RegistryInheritance
import Pkm.Kacs.RoundTrip
import Pkm.Kacs.RestrictionLeaks
import Pkm.Kacs.RuleDescriptor
import Pkm.Kacs.Staging
import Pkm.Kacs.StringCase
import Pkm.Kacs.TokenAdjust
import Pkm.Kacs.Values
import Pkm.Kmes.Rate
import Pkm.Lcs.BackupStreams
import Pkm.Lcs.EffectiveLayers
import Pkm.Lcs.EnumerationErrors
import Pkm.Lcs.FreshWrite
import Pkm.Lcs.LatentLayers
import Pkm.Lcs.Manifests
import Pkm.Lcs.OpenCreate
import Pkm.Lcs.OtherLimits
import Pkm.Lcs.References
import Pkm.Lcs.Responses
import Pkm.Lcs.RewrittenPaths
import Pkm.Lcs.Transactions
import Pkm.Ntfe.Counters
import Pkm.Ntfe.Sentences
import Pkm.Ntfe.Windows
import Pkm.Pnp.ActionOrder
import Pkm.Pnp.Expiry
import Pkm.Pnp.TriggerLaw
import Pkm.Pnp.Visibility
import Pkm.Pnp.Vocabulary
