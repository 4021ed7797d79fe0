import OpenAir.Pdcp.IntegrityProperties
import OpenAir.Pdcp.ReorderedCountProperties
import OpenAir.Nas.ProtectionProperties
import OpenAir.Nas.ReplayProperties
import OpenAir.Nas.TimerQueue
import OpenAir.Mac.ParserSafety
import OpenAir.RlcAm.HoleAlgebra
import OpenAir.RlcAm.ResendHistory
import OpenAir.RlcAm.SduAccounts
import OpenAir.RlcUm.ReorderingProperties
import OpenAir.Pdcp.Configuration
import OpenAir.Rlc.TimerExpiry
import OpenAir.RlcAm.PollingProperties
import OpenAir.Mac.CceFeasibility
import OpenAir.Phy.PdcchLength
import OpenAir.Phy.RateMatching
import OpenAir.Phy.SearchSpaces
import OpenAir.Phy.GoldSequence
import OpenAir.Phy.TailBiting
import OpenAir.Phy.ControlRegions
import OpenAir.Phy.PdcchInterleaving
import OpenAir.Mac.DlschGrants
import OpenAir.Mac.UlBufferStatus
import OpenAir.Mac.UeBufferStatus
import OpenAir.Util.MemBlocks
import OpenAir.Pdcp.OverRlcAm
