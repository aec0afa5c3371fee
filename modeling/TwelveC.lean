import TwelveC.AdaptiveReceive
import TwelveC.Client.CoalescingRegistry
import TwelveC.Client.CredentialStyle
import TwelveC.Client.DownloadFeeds
import TwelveC.Client.DownloadRoutes
import TwelveC.Client.HashPoolDrain
import TwelveC.Client.OutstandingGets
import TwelveC.Client.RampedPuts
import TwelveC.Client.StreamingHashes
import TwelveC.Client.UploadPrepared
import TwelveC.FileNames
import TwelveC.Layout32
import TwelveC.LengthInversion
import TwelveC.MerkleBinding
import TwelveC.PaddingPlacement
import TwelveC.RecordOrder
import TwelveC.Registry.ApprovalAtomic
import TwelveC.Registry.BlockAuthCanonical
import TwelveC.Registry.ExpiryTexts
import TwelveC.Registry.GrantedTtl
import TwelveC.Registry.KeyAgreement
import TwelveC.Registry.RelayCount
import TwelveC.Registry.ReserveExclusive
import TwelveC.Registry.Resolve
import TwelveC.Relay.Capacity
import TwelveC.Relay.Durability
import TwelveC.Relay.FreshBlocks
import TwelveC.Relay.KeyRecovery
import TwelveC.SessionFinalize
import TwelveC.SmbBounds
import TwelveC.SmbNames
import TwelveC.UploadAgreement
import TwelveC.UploadBuffers
