import Datatent.CoreOld.Tree.NodeCache
import Datatent.CoreOld.Tree.NodeCacheRuns
import Datatent.CoreOld.Tree.Durability
import Datatent.Core.Block.AllPages
import Datatent.Core.Block.BaseBlock
import Datatent.Core.Block.DataBlock
import Datatent.Core.Block.Saving
import Datatent.Core.Pages.PageAccounting
import Datatent.Core.Pages.PageReopen
import Datatent.Core.Scheduler.Failing
import Datatent.Core.Scheduler.RequestEquality
import Datatent.Core.Scheduler.Serialised
import Datatent.CoreOld.Block.FlatBlocks
import Datatent.CoreOld.Tree.Duplicates
import Datatent.CoreOld.Tree.DeletingValues
import Datatent.Core.Common.DatabaseHeader
import Datatent.Core.Pages.HeaderFields
import Datatent.Core.Algo.Sort.RadixLds
import Datatent.Core.Algo.Sort.RadixMsd
import Datatent.Core.Algo.Sort.Insertion
import Datatent.CoreOld.Records.BlockOwnership
import Datatent.CoreOld.Block.BlockObjects
import Datatent.CoreOld.Records.OpenBlocks
import Datatent.CoreOld.Records.RecordProgram
import Datatent.CoreOld.Records.Following
import Datatent.CoreOld.Records.FollowingSpace
import Datatent.CoreOld.Records.FollowingRecords
import Datatent.CoreOld.Records.StreamRecords
import Datatent.Library.History
import Datatent.Core.IO.FileImage
import Datatent.Core.Scheduler.Linearised
import Datatent.Core.Scheduler.Returning
import Datatent.Library.Counting
import Datatent.Library.UTreeSize
import Datatent.CoreOld.Tree.Loading
import Datatent.CoreOld.Records.ClientSession
import Datatent.Library.Mirroring
import Datatent.CoreOld.Tree.ReadingAlike
import Datatent.CoreOld.Tree.WritingAlike
import Datatent.CoreOld.Tree.DeletingAlike
import Datatent.CoreOld.Tree.DiskMirror
import Datatent.CoreOld.Tree.DiskMirrorWriting
import Datatent.CoreOld.Tree.IndexOnDisk
import Datatent.CoreOld.Tree.Lookups
import Datatent.Library.Agreeing
import Datatent.CoreOld.Tree.NodeIds
import Datatent.CoreOld.Tree.IndexIds
