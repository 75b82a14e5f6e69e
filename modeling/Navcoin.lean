import Navcoin.Validation.PublicValue
import Navcoin.Blsct.Bulletproofs
import Navcoin.Validation.PaidOnce
import Navcoin.Validation.ConsultationCycles
import Navcoin.Cache.Coins
import Navcoin.Cache.NameData
import Navcoin.Validation.RevealedNames
import Navcoin.Validation.Maturity
import Navcoin.Validation.CoinSchedules
import Navcoin.Validation.MoneySupply
import Navcoin.Conversion.Answers
import Navcoin.Cache.BulkQueries
import Navcoin.Cache.ExcludeVotes
import Navcoin.Validation.ColdStake
import Navcoin.Index.BlockTree
import Navcoin.Miner.Payouts
import Navcoin.Miner.NewBlock
import Navcoin.Validation.ScriptVotes
import Navcoin.Validation.ListedAnswers
import Navcoin.Blsct.SubAddress
import Navcoin.Blsct.Invert
import Navcoin.Primitives.Compact
