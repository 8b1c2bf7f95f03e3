import ConvertBinaryC.CTLibFetchStore
import ConvertBinaryC.CBCSourcifyReparse
import ConvertBinaryC.CTLibParserTables
import ConvertBinaryC.CTLibLayoutOrder
import ConvertBinaryC.CTLibBitfieldDisjoint
import ConvertBinaryC.UtilHashRuns
import ConvertBinaryC.CTLibLayoutHeld
import ConvertBinaryC.CTLibExpressionMeaning
import ConvertBinaryC.CBCByteOrderTag
import ConvertBinaryC.CBCFlexibleCount
import ConvertBinaryC.CBCDimensionTag
import ConvertBinaryC.CBCZeroSized
import ConvertBinaryC.CBCPackUpdate
import ConvertBinaryC.CBCBufferBounds
import ConvertBinaryC.CBCDimensionOrder
import ConvertBinaryC.CBCDimensionParent
import ConvertBinaryC.CBCEnumSize
import ConvertBinaryC.CTLibSizeof
import ConvertBinaryC.CTLibBitfieldWidth
import ConvertBinaryC.CTLibExactRules
import ConvertBinaryC.PartRules
import ConvertBinaryC.SimulateRules
import ConvertBinaryC.CTLibExactParse
import ConvertBinaryC.CBCMemberOffset
import ConvertBinaryC.CTLibLiteralValue
import ConvertBinaryC.UtilListSplice
import ConvertBinaryC.CTLibMirrorRun
import ConvertBinaryC.CTLibOrdinaryLayout
import ConvertBinaryC.CBCUnnamedMember
import ConvertBinaryC.CBCFormat
import ConvertBinaryC.CBCMemberGrammar
import ConvertBinaryC.CTLibIntegerRoundTrip
import ConvertBinaryC.UtilListSort
import ConvertBinaryC.CTLibBlockSize
import ConvertBinaryC.CBCOptionAtomic
import ConvertBinaryC.CTLibParserContainment
import ConvertBinaryC.CBCShapePack
import ConvertBinaryC.CBCOffsetAccess
import ConvertBinaryC.ArenaRules
import ConvertBinaryC.CTLibClone
import ConvertBinaryC.CTLibCloneCopy
import ConvertBinaryC.CTLibCloneParse
import ConvertBinaryC.CTLibCloneRuns
import ConvertBinaryC.CTLibFileInfo
import ConvertBinaryC.CTLibFileContexts
import ConvertBinaryC.CTLibCloneFiles
import ConvertBinaryC.CBCClonePack
import ConvertBinaryC.CBCCloneQuery
import ConvertBinaryC.CTLibCloneLayout
